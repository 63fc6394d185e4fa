import PlasmaModel.Lib.Groups
import PlasmaModel.Lib.Rows
import PlasmaModel.Notifications.GroupingProxyModel

namespace NotificationManager

theorem appsMatch_iff {a b : Application} : appsMatch a b = true ↔ a.applicationName ≠ "" ∧ a = b := by
  cases a
  cases b
  simp [appsMatch]

namespace NotificationGroupingProxyModel

variable {s s' : NotificationGroupingProxyModel} {l rows : List Nat} {row i j : Nat} {silent : Bool} {signal : Signal}

def Alike (s : NotificationGroupingProxyModel) (a b : Nat) : Prop :=
  appsMatch (s.application a) (s.application b) = true

theorem alike_symm (a b : Nat) (h : s.Alike a b) : s.Alike b a := by
  have ⟨hn, he⟩ := appsMatch_iff.mp h
  exact appsMatch_iff.mpr ⟨he ▸ hn, he.symm⟩

theorem alike_trans (a b c : Nat) (hab : s.Alike a b) (hbc : s.Alike b c) : s.Alike a c := by
  have ⟨hn, he⟩ := appsMatch_iff.mp hab
  have ⟨_, he'⟩ := appsMatch_iff.mp hbc
  exact appsMatch_iff.mpr ⟨hn, he.trans he'⟩

theorem matchesRow_iff : s.matchesRow row rows = true ↔ ∃ rep, rows.head? = some rep ∧ rep ≠ row ∧ s.Alike row rep := by
  rw [matchesRow]
  cases rows.head? with
  | none => simp
  | some rep => simp [Alike]

def Groups (s : NotificationGroupingProxyModel) : Prop :=
  Grouped s.Alike (List.range s.sourceModel.length) s.rowMap

section

variable {m : RowMap}

-- The source is the same, and so is what is alike in it.
theorem alike_congr (h : s'.sourceModel = s.sourceModel) : s'.Alike = s.Alike := by
  funext a b
  rw [Alike, Alike, application, application, application, application, h]

end

theorem tryToGroup_eq_none (h : s.tryToGroup row silent = none) : ∀ rows ∈ s.rowMap, s.matchesRow row rows = false := by
  rw [tryToGroup] at h
  split at h
  case h_1 hn => exact List.findIdx?_eq_none_iff.mp hn
  case h_2 => cases h

theorem tryToGroup_eq_some (h : s.tryToGroup row silent = some s') :
    s'.sourceModel = s.sourceModel ∧ ∃ i rows rep, s.rowMap[i]? = some rows ∧ rows.head? = some rep ∧ rep ≠ row ∧
      s.Alike row rep ∧ (∀ k rows, k < i → s.rowMap[k]? = some rows → s.matchesRow row rows = false) ∧
        s'.rowMap = s.rowMap.modify i (· ++ [row]) := by
  rw [tryToGroup] at h
  split at h
  case h_1 => cases h
  case h_2 i hi =>
    have ⟨hlt, hm, hfirst⟩ := List.findIdx?_eq_some_iff_getElem.mp hi
    have ⟨rep, hhead, hne, halike⟩ := matchesRow_iff.mp hm
    have hs : s'.sourceModel = s.sourceModel ∧ s'.rowMap = s.rowMap.modify i (· ++ [row]) := by
      cases silent <;> cases h <;> exact ⟨rfl, rfl⟩
    refine ⟨hs.1, i, _, rep, List.getElem?_eq_getElem hlt, hhead, hne, halike, fun k rows hk hr => ?_, hs.2⟩
    have ⟨hlk, hr⟩ := List.getElem?_eq_some_iff.mp hr
    exact hr ▸ Bool.not_eq_true _ ▸ hfirst k hk

theorem isGroup_iff {rows : List Nat} : isGroup rows = true ↔ 1 < rows.length :=
  decide_eq_true_iff

theorem checkRow_sourceModel : (s.checkRow silent i).sourceModel = s.sourceModel := by
  rw [checkRow]
  split
  case h_1 => rfl
  case h_2 rows _ =>
    split
    case isTrue => rfl
    case isFalse =>
      split
      case h_1 => rfl
      case h_2 s' hs =>
        have ⟨_, _, hs⟩ := Option.bind_eq_some_iff.mp hs
        exact (tryToGroup_eq_some hs).1

theorem checkRows_sourceModel : (s.checkRows silent i).sourceModel = s.sourceModel := by
  induction i generalizing s
  case zero => rfl
  case succ i ih => rw [checkRows, ih, checkRow_sourceModel]

theorem eq_singleton {rows : List Nat} (hg : ¬isGroup rows = true) (hr : rows ≠ []) : ∃ row, rows = [row] := by
  have hl := List.length_pos_iff.mpr hr
  rw [isGroup_iff] at hg
  exact List.length_eq_one_iff.mp (by omega)

theorem checkRow_groupedFrom (h : GroupedFrom s.Alike (i + 1) l s.rowMap) (hn : l.Nodup) :
    GroupedFrom s.Alike i l (s.checkRow silent i).rowMap := by
  rw [checkRow]
  split
  case h_1 hi =>
    exact h.stays fun j rows rows' _ _ hr => by cases hi.symm.trans hr
  case h_2 rows hi =>
    split
    case isTrue hg =>
      refine h.stays fun j rows' rows'' hji hj hr => ?_
      cases hi.symm.trans hr
      exact h.apart j i rows' rows hji hj hi (.inr (isGroup_iff.mp hg))
    case isFalse hg =>
      have ⟨row, he⟩ := eq_singleton hg (h.partitions.nonempty rows (List.mem_of_getElem? hi))
      subst he
      rw [List.head?_cons, Option.bind_some]
      split
      case h_1 hs =>
        refine h.stays fun j rows rows' hji hj hr => ?_
        cases hi.symm.trans hr
        have hmem := List.mem_of_getElem? hj
        have ⟨rep, rest, hc⟩ := List.exists_cons_of_ne_nil (h.partitions.nonempty rows hmem)
        have hhead : rows.head? = some rep := hc ▸ rfl
        refine h.apart_of_head alike_symm alike_trans hmem hhead fun halike => ?_
        have hne : rep ≠ row := by
          rintro rfl
          have := GroupedFrom.eq_of_mem h.partitions hn hj hi (List.mem_of_mem_head? hhead) List.mem_cons_self
          omega
        have hm := tryToGroup_eq_none hs rows hmem
        exact Bool.false_ne_true (hm.symm.trans (matchesRow_iff.mpr ⟨rep, hhead, hne, halike⟩))
      case h_2 s' hs =>
        have ⟨hsource, j, rows, rep, hj, hhead, hne, halike, hfirst, hmap⟩ := tryToGroup_eq_some hs
        have hjoin := h.join alike_symm alike_trans hn hi hj hhead hne halike fun k rows c hk hr hc hne halike =>
          Bool.false_ne_true ((hfirst k rows hk hr).symm.trans (matchesRow_iff.mpr ⟨c, hc, hne, halike⟩))
        rw [removeRow, emit, emit]
        dsimp only
        rw [hmap]
        exact hjoin.2

-- The loop leaves a map that is grouped, whatever there was at the start of it.
theorem checkRows_grouped (h : GroupedFrom s.Alike i l s.rowMap) (hn : l.Nodup) :
    Grouped s.Alike l (s.checkRows silent i).rowMap := by
  induction i generalizing s
  case zero => exact h
  case succ i ih =>
    rw [checkRows, ← alike_congr (@checkRow_sourceModel s i silent)]
    apply ih
    rw [alike_congr checkRow_sourceModel]
    exact checkRow_groupedFrom h hn

theorem tryToGroup_of_grouped (h : Grouped s.Alike l s.rowMap) (hi : s.rowMap[i]? = some [row]) :
    s.tryToGroup row silent = none := by
  cases hs : s.tryToGroup row silent with
  | none => rfl
  | some s' =>
    have ⟨_, j, rows, rep, hj, hhead, hne, halike, _⟩ := tryToGroup_eq_some hs
    have hmem := List.mem_of_mem_head? hhead
    rcases Nat.lt_trichotomy i j with hlt | he | hlt
    · exact (h.apart i j [row] rows hlt hi hj (.inl (Nat.zero_le j)) row List.mem_cons_self rep hmem halike).elim
    · subst he
      cases hi.symm.trans hj
      exact (hne (Option.some_inj.mp hhead).symm).elim
    · have := h.apart j i rows [row] hlt hj hi (.inl (Nat.zero_le i)) rep hmem row List.mem_cons_self
      exact (this (alike_symm _ _ halike)).elim

-- There is nothing to do for a map that is grouped.
theorem checkRows_of_grouped (h : Grouped s.Alike l s.rowMap) : s.checkRows silent i = s := by
  induction i
  case zero => rfl
  case succ i ih =>
    have hrow : s.checkRow silent i = s := by
      rw [checkRow]
      split
      case h_1 => rfl
      case h_2 rows hi =>
        split
        case isTrue => rfl
        case isFalse hg =>
          have ⟨row, he⟩ := eq_singleton hg (h.partitions.nonempty rows (List.mem_of_getElem? hi))
          subst he
          rw [List.head?_cons, Option.bind_some, tryToGroup_of_grouped h hi]
    rw [checkRows, hrow, ih]

theorem insertSourceRow_sourceModel : (s.insertSourceRow i).sourceModel = s.sourceModel := by
  rw [insertSourceRow]
  split
  case h_1 s' hs => exact (tryToGroup_eq_some hs).1
  case h_2 => rfl

theorem insertSourceRow_grouped (h : Grouped s.Alike l s.rowMap) (hi : i ∉ l) :
    Grouped s.Alike (i :: l) (s.insertSourceRow i).rowMap := by
  rw [insertSourceRow]
  split
  case h_1 s' hs =>
    have ⟨_, j, rows, rep, hj, hhead, _, halike, _, hmap⟩ := tryToGroup_eq_some hs
    rw [hmap]
    exact h.add_to alike_symm alike_trans hj hhead halike
  case h_2 hs =>
    refine h.add_alone fun rows hr => ?_
    have ⟨rep, rest, hc⟩ := List.exists_cons_of_ne_nil (h.partitions.nonempty rows hr)
    have hhead : rows.head? = some rep := hc ▸ rfl
    refine h.apart_of_head alike_symm alike_trans hr hhead fun halike => ?_
    have hne : rep ≠ i := fun he => hi (he ▸ h.partitions.mem_iff.mpr ⟨rows, hr, List.mem_of_mem_head? hhead⟩)
    have hm := tryToGroup_eq_none hs rows hr
    exact Bool.false_ne_true (hm.symm.trans (matchesRow_iff.mpr ⟨rep, hhead, hne, halike⟩))

theorem insertSourceRows_sourceModel (is : List Nat) : (is.foldl insertSourceRow s).sourceModel = s.sourceModel := by
  induction is generalizing s
  case nil => rfl
  case cons i is ih => rw [List.foldl_cons, ih, insertSourceRow_sourceModel]

theorem insertSourceRows_grouped {is : List Nat} (h : Grouped s.Alike l s.rowMap) (hn : is.Nodup) (hd : is.Disjoint l) :
    Grouped s.Alike (is ++ l) (is.foldl insertSourceRow s).rowMap := by
  induction is generalizing s l
  case nil => exact h
  case cons i is ih =>
    have ⟨hi, hn⟩ := List.nodup_cons.mp hn
    have ⟨hout, hd⟩ := List.disjoint_cons_left.mp hd
    have hfirst := insertSourceRow_grouped h hout
    rw [← alike_congr insertSourceRow_sourceModel] at hfirst ⊢
    exact (ih hfirst hn (List.disjoint_cons_right.mpr ⟨hi, hd⟩)).of_perm List.perm_middle

-- The lists without some of the rows, as far as any are left in them.
def keepRows (p : Nat → Bool) (m : RowMap) : RowMap :=
  (m.map (·.filter p)).filter (· ≠ [])

theorem keepRows_keepRows (p q : Nat → Bool) (m : RowMap) :
    keepRows p (keepRows q m) = keepRows (fun row => p row && q row) m := by
  induction m
  case nil => rfl
  case cons rows m ih =>
    simp only [keepRows, List.map_cons] at ih ⊢
    by_cases hq : rows.filter q = []
    case pos =>
      have hpq : rows.filter (fun row => p row && q row) = [] := by rw [← List.filter_filter, hq, List.filter_nil]
      rw [List.filter_cons_of_neg (by simp [hq]), List.filter_cons_of_neg (by simp [hpq]), ih]
    case neg =>
      rw [List.filter_cons_of_pos (by simpa using hq), List.map_cons, List.filter_filter, List.filter_cons,
        List.filter_cons, ih]

theorem keepRows_eq_self {m : RowMap} {p : Nat → Bool} (hn : ∀ rows ∈ m, rows ≠ [])
    (hp : ∀ rows ∈ m, ∀ row ∈ rows, p row = true) : keepRows p m = m := by
  have hmap : m.map (·.filter p) = m :=
    (List.map_congr_left fun rows hr => List.filter_eq_self.mpr (hp rows hr)).trans (List.map_id m)
  rw [keepRows, hmap]
  exact List.filter_eq_self.mpr fun rows hr => decide_eq_true (hn rows hr)

theorem keepRows_append (p : Nat → Bool) (m₁ m₂ : RowMap) :
    keepRows p (m₁ ++ m₂) = keepRows p m₁ ++ keepRows p m₂ := by
  rw [keepRows, List.map_append, List.filter_append, keepRows, keepRows]

theorem removeSourceRow_sourceModel : (s.removeSourceRow i).sourceModel = s.sourceModel := by
  rw [removeSourceRow]
  split
  case h_1 => rfl
  case h_2 =>
    dsimp only
    split
    case isTrue => rfl
    case isFalse => split <;> rfl

-- The list of a row that goes.
structure Removes (s : NotificationGroupingProxyModel) (i j : Nat) (m₁ : RowMap) (rows : List Nat) (m₂ : RowMap) :
    Prop where
  rowMap : s.rowMap = m₁ ++ rows :: m₂
  length : m₁.length = j
  mem    : i ∈ rows
  nodup  : rows.Nodup
  others : ∀ rows ∈ m₁ ++ m₂, i ∉ rows
  find   : s.rowMap.findIdx? (i ∈ ·) = some j

theorem exists_removes (hp : Partitions l s.rowMap) (hn : l.Nodup) (hi : i ∈ l) :
    ∃ j m₁ rows m₂, s.Removes i j m₁ rows m₂ := by
  have ⟨rows, hr, hir⟩ := hp.mem_iff.mp hi
  have hsome : (s.rowMap.findIdx? (i ∈ ·)).isSome = true :=
    List.findIdx?_isSome ▸ List.any_eq_true.mpr ⟨rows, hr, decide_eq_true hir⟩
  have ⟨j, hj⟩ := Option.isSome_iff_exists.mp hsome
  have ⟨hlt, hm, _⟩ := List.findIdx?_eq_some_iff_getElem.mp hj
  have hget := List.getElem?_eq_getElem hlt
  have hmem : i ∈ s.rowMap[j] := of_decide_eq_true hm
  have ⟨m₁, m₂, he, hl⟩ := List.exists_append_of_getElem? hget
  have ⟨hnodup, hd⟩ := List.nodup_flatten.mp (hp.perm.nodup_iff.mpr hn)
  refine ⟨j, m₁, s.rowMap[j], m₂, he, hl, hmem, hnodup _ (List.getElem_mem hlt), fun rows' hr' hir' => ?_, hj⟩
  rw [he] at hd
  have ⟨_, hpost, hcross⟩ := List.pairwise_append.mp hd
  cases List.mem_append.mp hr' with
  | inl hr' => exact hcross rows' hr' _ List.mem_cons_self hir' hmem
  | inr hr' => exact (List.pairwise_cons.mp hpost).1 rows' hr' hmem hir'

namespace Removes

variable {m₁ m₂ : RowMap}

theorem getElem? (h : s.Removes i j m₁ rows m₂) : s.rowMap[j]? = some rows := by
  rw [h.rowMap, ← h.length, List.getElem?_append_right (Nat.le_refl _), Nat.sub_self, List.getElem?_cons_zero]

theorem eraseIdx_eq (h : s.Removes i j m₁ rows m₂) : rows.eraseIdx (rows.idxOf i) = rows.filter (· ≠ i) :=
  h.nodup.eraseIdx_eq_filter (List.getElem?_idxOf h.mem)

theorem length_filter (h : s.Removes i j m₁ rows m₂) : (rows.filter (· ≠ i)).length = rows.length - 1 := by
  rw [← h.eraseIdx_eq, List.length_eraseIdx_of_lt (List.idxOf_lt_length_of_mem h.mem)]

theorem keepRows_eq (h : s.Removes i j m₁ rows m₂) (hn : ∀ rows ∈ s.rowMap, rows ≠ []) :
    keepRows (· ≠ i) s.rowMap = if rows.length = 1 then s.rowMap.eraseIdx j
      else s.rowMap.modify j (·.eraseIdx (rows.idxOf i)) := by
  have hothers {m : RowMap} (hm : ∀ rows ∈ m, rows ∈ m₁ ++ m₂) : keepRows (· ≠ i) m = m := by
    refine keepRows_eq_self (fun rows hr => hn rows ?_) fun rows hr row hrow => decide_eq_true ?_
    · rw [h.rowMap]
      exact List.mem_append.mpr ((List.mem_append.mp (hm rows hr)).imp_right (List.mem_cons_of_mem _))
    · rintro rfl
      exact h.others rows (hm rows hr) hrow
  have hsplit : keepRows (· ≠ i) (rows :: m₂) = keepRows (· ≠ i) [rows] ++ m₂ := by
    rw [← List.singleton_append, keepRows_append, hothers fun _ => List.mem_append_right _]
  have hlen := h.length_filter
  rw [h.rowMap, keepRows_append, hothers fun _ => List.mem_append_left _, hsplit, keepRows, List.map_singleton,
    ← h.length]
  split
  case isTrue h1 =>
    have hnil : rows.filter (· ≠ i) = [] := List.length_eq_zero_iff.mp (by omega)
    rw [hnil, List.eraseIdx_length_append]
    rfl
  case isFalse h1 =>
    have hpos := List.length_pos_of_mem h.mem
    have hne : rows.filter (· ≠ i) ≠ [] := List.ne_nil_of_length_pos (by omega)
    have hkept : [rows.filter (· ≠ i)].filter (· ≠ []) = [rows.filter (· ≠ i)] :=
      List.filter_cons_of_pos (decide_eq_true hne)
    rw [List.modify_length_append, h.eraseIdx_eq, hkept]
    rfl

-- A row that goes is taken out of its list, which goes as well if it was the only one there.
theorem removeSourceRow_rowMap (h : s.Removes i j m₁ rows m₂) (hn : ∀ rows ∈ s.rowMap, rows ≠ []) :
    (s.removeSourceRow i).rowMap = keepRows (· ≠ i) s.rowMap := by
  rw [h.keepRows_eq hn, removeSourceRow, h.find]
  dsimp only
  rw [h.getElem?, Option.getD_some]
  split
  case isTrue => rfl
  case isFalse => split <;> rfl

end Removes

theorem removeSourceRows_sourceModel (is : List Nat) : (is.foldl removeSourceRow s).sourceModel = s.sourceModel := by
  induction is generalizing s
  case nil => rfl
  case cons i is ih => rw [List.foldl_cons, ih, removeSourceRow_sourceModel]

theorem removeSourceRow_grouped (h : Grouped s.Alike l s.rowMap) (hn : l.Nodup) (hi : i ∈ l) :
    (s.removeSourceRow i).rowMap = keepRows (· ≠ i) s.rowMap ∧
      Grouped s.Alike (l.filter (· ≠ i)) (s.removeSourceRow i).rowMap := by
  have ⟨_, _, _, _, hr⟩ := exists_removes h.partitions hn hi
  have hmap := hr.removeSourceRow_rowMap h.partitions.nonempty
  exact ⟨hmap, hmap ▸ h.filter _⟩

theorem removeSourceRows_grouped {is : List Nat} (h : Grouped s.Alike l s.rowMap) (hn : l.Nodup) (hs : is ⊆ l)
    (hd : is.Nodup) : (is.foldl removeSourceRow s).rowMap = keepRows (· ∉ is) s.rowMap ∧
      Grouped s.Alike (l.filter (· ∉ is)) (is.foldl removeSourceRow s).rowMap := by
  have hmap : (is.foldl removeSourceRow s).rowMap = keepRows (· ∉ is) s.rowMap := by
    induction is generalizing s l
    case nil => exact (keepRows_eq_self h.partitions.nonempty fun _ _ _ _ => by simp).symm
    case cons i is ih =>
      have ⟨hi, hs⟩ := List.cons_subset.mp hs
      have ⟨hout, hd⟩ := List.nodup_cons.mp hd
      have ⟨hrow, hgrouped⟩ := removeSourceRow_grouped h hn hi
      rw [← alike_congr removeSourceRow_sourceModel] at hgrouped
      have hrest : is ⊆ l.filter (· ≠ i) := fun a ha =>
        List.mem_filter.mpr ⟨hs ha, decide_eq_true fun he => hout (he ▸ ha)⟩
      rw [List.foldl_cons, ih hgrouped (hn.filter _) hrest hd, hrow, keepRows_keepRows]
      congr
      funext row
      simp [Bool.and_comm]
  exact ⟨hmap, hmap ▸ h.filter _⟩

theorem adjustMap_map (anchor : Nat) (delta : Int) : (s.adjustMap anchor delta).rowMap =
    s.rowMap.map (·.map fun row => if anchor ≤ row then (row + delta).toNat else row) :=
  rfl

-- The source has grown by the time that its new rows are grouped.
def grown (start : Nat) (applications : List Application) (s : NotificationGroupingProxyModel) :
    NotificationGroupingProxyModel :=
  { s with sourceModel := s.sourceModel.take start ++ applications ++ s.sourceModel.drop start }.adjustMap start
    applications.length

-- The rows that are left are counted anew when the source has lost the others.
def shrunk (first count : Nat) (s : NotificationGroupingProxyModel) : NotificationGroupingProxyModel :=
  let s := s.rowsAboutToBeRemoved first count
  { s with sourceModel := s.sourceModel.take first ++ s.sourceModel.drop (first + count) }.adjustMap (first + 1) (-count)

namespace Groups

variable {start first count : Nat} {applications : List Application}

theorem alike_iff_of_application {f : Nat → Nat} (hf : ∀ a ∈ l, s'.application (f a) = s.application a) :
    ∀ a ∈ l, ∀ b ∈ l, s'.Alike (f a) (f b) ↔ s.Alike a b := by
  intro a ha b hb
  rw [Alike, Alike, hf a ha, hf b hb]

theorem grown_grouped (h : s.Groups) (hs : start ≤ s.sourceModel.length) :
    Grouped (s.grown start applications).Alike ((List.range s.sourceModel.length).map fun row =>
      if start ≤ row then row + applications.length else row) (s.grown start applications).rowMap := by
  have hadjust : (fun row : Nat => if start ≤ row then ((row : Int) + applications.length).toNat else row) =
      fun row => if start ≤ row then row + applications.length else row := by
    funext row
    split <;> omega
  have happ : ∀ row ∈ List.range s.sourceModel.length,
      (s.grown start applications).application (if start ≤ row then row + applications.length else row) =
        s.application row := by
    intro row _
    rw [application, application]
    exact congrArg (·.getD {}) (List.getElem?_inserted hs row)
  rw [grown, adjustMap_map, hadjust]
  exact h.map _ (alike_iff_of_application happ)

theorem insertRows_grouped (h : s.Groups) (hs : start ≤ s.sourceModel.length) :
    ((List.range' start applications.length).foldl insertSourceRow (s.grown start applications)).Groups := by
  have hlen : (s.grown start applications).sourceModel.length = s.sourceModel.length + applications.length := by
    simp [grown, adjustMap]
    omega
  have hinserted := insertSourceRows_grouped (@grown_grouped s start applications h hs) List.nodup_range'
    (List.disjoint_inserted start applications.length s.sourceModel.length)
  have hall := hinserted.of_perm (List.range_insert hs)
  have hsource := @insertSourceRows_sourceModel (s.grown start applications) (List.range' start applications.length)
  rwa [← alike_congr hsource, ← hlen, ← hsource] at hall

theorem insertRows_eq (h : s.Groups) (hs : start ≤ s.sourceModel.length) : s.insertRows start applications =
    (List.range' start applications.length).foldl insertSourceRow (s.grown start applications) :=
  checkRows_of_grouped (h.insertRows_grouped hs)

theorem aboutToBeRemoved_grouped (h : s.Groups) (hs : first + count ≤ s.sourceModel.length) :
    (s.rowsAboutToBeRemoved first count).rowMap = keepRows (· ∉ List.range' first count) s.rowMap ∧
      Grouped s.Alike ((List.range s.sourceModel.length).filter (· ∉ List.range' first count))
        (s.rowsAboutToBeRemoved first count).rowMap := by
  have hsub : List.range' first count ⊆ List.range s.sourceModel.length := fun a ha => by
    have := List.mem_range'_1.mp ha
    exact List.mem_range.mpr (by omega)
  exact removeSourceRows_grouped h List.nodup_range hsub List.nodup_range'

theorem shrunk_groups (h : s.Groups) (hs : first + count ≤ s.sourceModel.length) : (s.shrunk first count).Groups := by
  have ⟨_, hgrouped⟩ := h.aboutToBeRemoved_grouped hs
  have hsource : (s.rowsAboutToBeRemoved first count).sourceModel = s.sourceModel := removeSourceRows_sourceModel _
  have hadjust : (fun row : Nat => if first + 1 ≤ row then ((row : Int) + -count).toNat else row) =
      fun row => if first + 1 ≤ row then row - count else row := by
    funext row
    split <;> omega
  have hlen : (s.shrunk first count).sourceModel.length = s.sourceModel.length - count := by
    simp [shrunk, adjustMap, hsource]
    omega
  have hleft : (List.range s.sourceModel.length).filter (· ∉ List.range' first count) =
      (List.range s.sourceModel.length).diff (List.range' first count) :=
    by
    rw [List.nodup_range.sdiff_eq_filter]
  have happ : ∀ row ∈ (List.range s.sourceModel.length).filter (· ∉ List.range' first count),
      (s.shrunk first count).application (if first + 1 ≤ row then row - count else row) = s.application row := by
    intro row hr
    have hout := of_decide_eq_true (List.mem_filter.mp hr).2
    rw [List.mem_range'_1] at hout
    have hget := @List.getElem?_removed _ s.sourceModel first count hs row (by omega)
    rw [application, application, ← hget, ← hsource]
    rfl
  have hmoved := hgrouped.map _ (alike_iff_of_application happ)
  rw [hleft] at hmoved
  have hall := hmoved.of_perm (List.range_remove hs)
  rw [← hadjust, ← hlen] at hall
  exact hall

theorem removeRows_eq (h : s.Groups) (hs : first + count ≤ s.sourceModel.length) :
    s.removeRows first count = s.shrunk first count :=
  checkRows_of_grouped (h.shrunk_groups hs)

end Groups

theorem rebuildMap_sourceModel : s.rebuildMap.sourceModel = s.sourceModel :=
  checkRows_sourceModel

theorem rebuildMap_groups : s.rebuildMap.Groups := by
  have h := @checkRows_grouped { s with rowMap := (List.range s.sourceModel.length).map ([·]) }
    (List.range s.sourceModel.length) _ true (GroupedFrom.singletons _ _) List.nodup_range
  rw [Groups, rebuildMap_sourceModel, alike_congr rebuildMap_sourceModel]
  exact h

theorem map_application : (List.range s.sourceModel.length).map s.application = s.sourceModel := by
  refine List.ext_getElem? fun i => ?_
  rw [List.getElem?_map]
  by_cases hi : i < s.sourceModel.length
  case pos => rw [List.getElem?_range hi, Option.map_some, application, List.getElem?_eq_getElem hi, Option.getD_some]
  case neg =>
    rw [List.getElem?_eq_none (by simpa using Nat.le_of_not_lt hi), List.getElem?_eq_none (Nat.le_of_not_lt hi),
      Option.map_none]

-- Rows may be left alone exactly if no two of them are alike.
theorem singletons_grouped_iff : Grouped s.Alike (List.range s.sourceModel.length)
    ((List.range s.sourceModel.length).map ([·])) ↔ s.sourceModel.Pairwise fun a b => appsMatch a b = false := by
  have hmap : (s.sourceModel.Pairwise fun a b => appsMatch a b = false) ↔
      (List.range s.sourceModel.length).Pairwise fun a b => ¬s.Alike a b := by
    conv_lhs => rw [← @map_application s]
    rw [List.pairwise_map]
    exact ⟨fun h => h.imp Bool.eq_false_iff.mp, fun h => h.imp Bool.eq_false_iff.mpr⟩
  rw [hmap]
  constructor
  case mp =>
    intro h
    refine (List.pairwise_map.mp h.pairwise).imp fun hap => hap _ List.mem_cons_self _ List.mem_cons_self
  case mpr =>
    intro h
    refine .of_pairwise (.singletons _) (fun rows hr => ?_) (List.pairwise_map.mpr (h.imp fun hn a ha b hb => ?_))
    · have ⟨a, _, he⟩ := List.mem_map.mp hr
      exact he ▸ List.pairwise_singleton _ a
    · rw [List.mem_singleton.mp ha, List.mem_singleton.mp hb]
      exact hn

theorem resetSource_groups (applications : List Application) (s : NotificationGroupingProxyModel) :
    (s.resetSource applications).Groups :=
  rebuildMap_groups (s := { s.emit .beginResetModel with sourceModel := applications })

end NotificationGroupingProxyModel
end NotificationManager
