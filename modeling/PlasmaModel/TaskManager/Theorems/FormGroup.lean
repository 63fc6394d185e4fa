import Mathlib.Data.List.Induction
import PlasmaModel.Lib.Runs
import PlasmaModel.TaskManager.Theorems.Grouping

namespace TaskManager

variable {QUrl : Type} {urls : QUrls QUrl}

namespace TaskGroupingProxyModel

def withMap (s : TaskGroupingProxyModel QUrl) (m : List (List Nat)) : TaskGroupingProxyModel QUrl :=
  { s with rowMap := m }

theorem withMap_complete_iff {s : TaskGroupingProxyModel QUrl} {m : List (List Nat)} :
    (s.withMap m).Complete ↔ Partitions (List.range s.sourceModel.length) m :=
  .rfl

-- Rows with different heads, which are rows of the source model.
structure Headed (s : TaskGroupingProxyModel QUrl) (m : List (List Nat)) : Prop where
  nodup : (m.map List.head?).Nodup
  heads : ∀ rows ∈ m, ∃ row < s.sourceModel.length, rows.head? = some row

variable {s : TaskGroupingProxyModel QUrl} {target : Task QUrl} {a b m : List (List Nat)} {first rows : List Nat}
variable {i : Nat}

theorem rep_of_head? {row : Nat} (h : rows.head? = some row) : s.rep urls rows = s.task urls row := by
  rw [rep, h]
  rfl

theorem rep_append {row : Nat} (h : rows.head? = some row) (rows' : List Nat) :
    s.rep urls (rows ++ rows') = s.rep urls rows := by
  rw [rep, rep, List.head?_append, h]
  rfl

namespace Headed

theorem of_partitions (h : s.Complete) : s.Headed s.rowMap := by
  have hn : s.rowMap.flatten.Nodup := h.perm.nodup_iff.mpr List.nodup_range
  have heads {rows : List Nat} (hr : rows ∈ s.rowMap) : ∃ row < s.sourceModel.length, rows.head? = some row := by
    cases rows with
    | nil => cases h.nonempty _ hr rfl
    | cons row rows => exact ⟨row, List.mem_range.mp (h.mem_iff.mpr ⟨_, hr, List.mem_cons_self⟩), rfl⟩
  refine ⟨List.pairwise_map.mpr ?_, fun _ => heads⟩
  refine (List.nodup_flatten.mp hn).2.imp_of_mem fun hr hr' hd heq => ?_
  have ⟨row, _, hrow⟩ := heads hr
  exact hd (List.mem_of_mem_head? hrow) (List.mem_of_mem_head? (heq ▸ hrow))

theorem rep_mem (h : s.Headed m) (hr : rows ∈ m) : s.rep urls rows ∈ s.sourceModel := by
  have ⟨row, hlt, hrow⟩ := h.heads _ hr
  rw [rep_of_head? hrow, task, List.getElem?_eq_getElem hlt]
  exact List.getElem_mem hlt

theorem sublist {m' : List (List Nat)} (h : s.Headed m) (hs : m'.Sublist m) : s.Headed m' :=
  ⟨h.nodup.sublist (hs.map _), fun _ hr => h.heads _ (hs.subset hr)⟩

theorem extend (h : s.Headed (a ++ rows :: b)) (rows' : List Nat) : s.Headed (a ++ (rows ++ rows') :: b) := by
  have ⟨row, hlt, hrow⟩ := h.heads rows (by simp)
  have heq : (rows ++ rows').head? = rows.head? := by rw [List.head?_append, hrow]; rfl
  refine ⟨by simpa [heq] using h.nodup, fun rows'' hr => ?_⟩
  simp only [List.mem_append, List.mem_cons] at hr
  if he : rows'' = rows ++ rows' then
    exact ⟨row, hlt, by rw [he, heq, hrow]⟩
  else
    exact h.heads _ (by grind)

end Headed

end TaskGroupingProxyModel

variable [DecidableEq QUrl]

theorem appsMatch_symm {a b : Task QUrl} (h : appsMatch urls a b) : appsMatch urls b a := by
  simp only [appsMatch, Bool.or_eq_true, Bool.and_eq_true, decide_eq_true_eq] at h ⊢
  cases h
  case inl h => exact .inl ⟨h.2 ▸ h.1, h.2.symm⟩
  case inr h => exact .inr ⟨h.2 ▸ h.1, h.2.symm⟩

namespace TaskGroupingProxyModel

def AppsTransitive (urls : QUrls QUrl) (s : TaskGroupingProxyModel QUrl) : Prop :=
  ∀ a ∈ s.sourceModel, ∀ b ∈ s.sourceModel, ∀ c ∈ s.sourceModel, appsMatch urls a b → appsMatch urls b c →
    appsMatch urls a c

-- The rows that are added to another row once the grouping of the task is turned on.
def moves (urls : QUrls QUrl) (s : TaskGroupingProxyModel QUrl) (target : Task QUrl) (rows : List Nat) : Bool :=
  s.isMatch urls target rows && s.isGroupable urls (s.rep urls rows)

-- The windows that match a task of `s` are the windows that match any other task that matches it.
def Agrees (urls : QUrls QUrl) (s : TaskGroupingProxyModel QUrl) (target : Task QUrl) : Prop :=
  ∀ a ∈ s.sourceModel, ∀ b ∈ s.sourceModel, appsMatch urls target a → appsMatch urls a b = appsMatch urls target b

variable {s : TaskGroupingProxyModel QUrl} {target : Task QUrl} {a b m : List (List Nat)} {first rows : List Nat}
variable {i : Nat}

theorem AppsTransitive.agrees (h : s.AppsTransitive urls) (ht : target ∈ s.sourceModel) : s.Agrees urls target := by
  intro a ha b hb hm
  refine Bool.eq_iff_iff.mpr ⟨h _ ht _ ha _ hb hm, h _ ha _ ht _ hb (appsMatch_symm hm)⟩

theorem agrees_invalid : s.Agrees urls (.invalid urls) := by
  intro a _ b _ hm
  simp [appsMatch, Task.invalid, urls.not_isValid_empty] at hm

theorem isMatch_append {row : Nat} (h : rows.head? = some row) (rows' : List Nat) :
    s.isMatch urls target (rows ++ rows') = s.isMatch urls target rows := by
  rw [isMatch, isMatch, rep_append h]

theorem Agrees.isMatch_eq (h : s.Agrees urls target) (hh : s.Headed m) (hr : rows ∈ m)
    (ha : appsMatch urls target (s.rep urls rows)) {rows' : List Nat} (hr' : rows' ∈ m) :
    s.isMatch urls (s.rep urls rows) rows' = s.isMatch urls target rows' := by
  rw [isMatch, isMatch, h _ (hh.rep_mem hr) _ (hh.rep_mem hr') ha]

theorem tryToGroup_withMap {row : Nat} : (s.withMap m).tryToGroup urls row =
    if s.isGroupable urls (s.task urls row) then
      (m.findIdx? fun rows => rows.head? ≠ some row && s.isMatch urls (s.task urls row) rows).map fun i =>
        s.withMap (m.modify i (· ++ [row]))
    else none :=
  tryToGroup_eq

theorem moves_append {row : Nat} (h : rows.head? = some row) (rows' : List Nat) :
    s.moves urls target (rows ++ rows') = s.moves urls target rows := by
  rw [moves, moves, isMatch_append h, rep_append h]

section Skips

variable {skips : List Nat → Bool} (hs : ∀ rows, skips rows = !appsMatch urls target (s.rep urls rows))
include hs

theorem groupRow_of_not_moves (hi : m[i]? = some rows) (h : ¬s.moves urls target rows) :
    (s.withMap m).groupRow urls skips i = s.withMap m := by
  have hget : (s.withMap m).rowMap[i]? = some rows := hi
  simp only [groupRow, hget, hs]
  split
  case isTrue => rfl
  case isFalse ha =>
    have hg : ¬s.isGroupable urls (s.rep urls rows) := fun hg => h <| by
      simp_all [moves, isMatch, isGroupable]
    have ht : rows.head?.bind ((s.withMap m).tryToGroup urls) = none := by
      rw [Option.bind_eq_none_iff]
      intro row hrow
      rw [tryToGroup_withMap, ← rep_of_head? hrow, if_neg hg]
    rw [ht]

theorem groupRow_of_moves {row : Nat} (hh : s.Headed m) (h : s.Agrees urls target) (hi : m[i]? = some rows)
    (hm : s.moves urls target rows) (hrow : rows.head? = some row) :
    (s.withMap m).groupRow urls skips i =
      match m.findIdx? fun rows' => rows'.head? ≠ some row && s.isMatch urls target rows' with
      | none => s.withMap m
      | some j => s.withMap ((m.modify j (· ++ [row])).eraseIdx i) := by
  simp only [moves, isMatch, Bool.and_eq_true] at hm
  have hc : m.findIdx? (fun rows' => rows'.head? ≠ some row && s.isMatch urls (s.rep urls rows) rows') =
      m.findIdx? fun rows' => rows'.head? ≠ some row && s.isMatch urls target rows' :=
    List.findIdx?_congr fun rows' hr' => by rw [h.isMatch_eq hh (List.mem_of_getElem? hi) hm.1.2 hr']
  have hget : (s.withMap m).rowMap[i]? = some rows := hi
  have hs : skips rows = false := by rw [hs, hm.1.2]; rfl
  simp only [groupRow, hget, hs, hrow, Option.bind_some, tryToGroup_withMap, ← rep_of_head? hrow, hm.2, if_true]
  rw [hc]
  cases m.findIdx? fun rows' => rows'.head? ≠ some row && s.isMatch urls target rows' with
  | none => rfl
  | some => rfl

theorem groupRows_unmatched (h : ∀ rows ∈ m.take i, ¬s.isMatch urls target rows) :
    (s.withMap m).groupRows urls skips i = s.withMap m := by
  induction i
  case zero => rfl
  case succ i ih =>
    rw [groupRows]
    cases hi : m[i]? with
    | none =>
      have hget : (s.withMap m).rowMap[i]? = none := hi
      rw [groupRow, hget]
      exact ih fun rows hr => h rows (List.take_subset_take_left _ i.le_succ hr)
    | some rows =>
      have hr : rows ∈ m.take (i + 1) := List.mem_of_getElem? ((List.getElem?_take_of_lt i.lt_succ_self).trans hi)
      have hm : ¬s.moves urls target rows := fun hm => h rows hr (Bool.and_eq_true_iff.mp hm).1
      rw [groupRow_of_not_moves hs hi hm]
      exact ih fun rows hr => h rows (List.take_subset_take_left _ i.le_succ hr)

omit hs in
theorem findIdx?_first {row : Nat} (hn : ∀ rows ∈ a, ¬s.isMatch urls target rows) (hf : s.isMatch urls target first)
    (hd : first.head? ≠ some row) (b : List (List Nat)) :
    (a ++ first :: b).findIdx? (fun rows => rows.head? ≠ some row && s.isMatch urls target rows) = some a.length := by
  have ha : a.findIdx? (fun rows => rows.head? ≠ some row && s.isMatch urls target rows) = none :=
    List.findIdx?_eq_none_iff.mpr fun rows hr => by simp [hn _ hr]
  rw [List.findIdx?_append, ha, List.findIdx?_cons, hf]
  simp [hd]

-- The rows after the first match are gone through while there is a row before them that theirs can be added to.
theorem groupRows_others (h : s.Agrees urls target) (hn : ∀ rows ∈ a, ¬s.isMatch urls target rows)
    {post : List (List Nat)} (hh : s.Headed (a ++ first :: (b ++ post))) (hf : s.isMatch urls target first) :
    (s.withMap (a ++ first :: (b ++ post))).groupRows urls skips (a.length + 1 + b.length) =
      (s.withMap (a ++ (first ++ (b.reverse.filter (s.moves urls target)).filterMap List.head?) ::
        (b.filter (!s.moves urls target ·) ++ post))).groupRows urls skips (a.length + 1) := by
  induction b using List.reverseRecOn generalizing first post
  case nil => simp
  case append_singleton b rows ih =>
    have hl : (a ++ first :: b).length = a.length + 1 + b.length := by
      simp
      omega
    have hm₁ : a ++ first :: (b ++ [rows] ++ post) = a ++ first :: b ++ rows :: post := by simp
    have hget : (a ++ first :: (b ++ [rows] ++ post))[a.length + 1 + b.length]? = some rows := by
      rw [hm₁, ← hl, List.getElem?_append_right (Nat.le_refl _), Nat.sub_self]
      rfl
    have ⟨row, _, hrow⟩ := hh.heads rows (by simp)
    have ⟨row', _, hrow'⟩ := hh.heads first (by simp)
    rw [List.length_append, List.length_singleton, ← Nat.add_assoc, groupRows]
    cases hm : s.moves urls target rows with
    | false =>
      rw [groupRow_of_not_moves hs hget (Bool.eq_false_iff.mp hm)]
      have ih := @ih first ([rows] ++ post) (by simpa using hh) hf
      simpa [hm] using ih
    | true =>
      have hd : first.head? ≠ some row := by
        have hn := hh.nodup
        simp only [List.map_append, List.map_cons, List.nodup_append, List.nodup_cons] at hn
        grind
      have hj := findIdx?_first hn hf hd (b ++ [rows] ++ post)
      rw [groupRow_of_moves hs hh h hget hm hrow, hj]
      have hm₂ : (a ++ (first ++ [row]) :: (b ++ [rows] ++ post)).eraseIdx (a.length + 1 + b.length) =
          a ++ (first ++ [row]) :: (b ++ post) := by
        have heq : a ++ (first ++ [row]) :: (b ++ [rows] ++ post) = a ++ (first ++ [row]) :: b ++ rows :: post := by
          simp
        have hl : a.length + 1 + b.length = (a ++ (first ++ [row]) :: b).length := by
          simp
          omega
        rw [heq, hl, List.eraseIdx_length_append, List.append_assoc, List.cons_append]
      simp only [List.modify_length_append, hm₂]
      rw [ih ((hh.extend [row]).sublist ?_) ((isMatch_append hrow' _).trans hf)]
      · simp [hm, hrow]
      · simp

theorem groupRows_done (hn : ∀ rows ∈ a, ¬s.isMatch urls target rows) :
    (s.withMap (a ++ b)).groupRows urls skips a.length = s.withMap (a ++ b) :=
  groupRows_unmatched hs (by simpa using hn)

-- The first match itself is added to a row after it, if one is left.
theorem groupRows_first (h : s.Agrees urls target) (hn : ∀ rows ∈ a, ¬s.isMatch urls target rows)
    (hh : s.Headed (a ++ first :: b)) (hm : s.moves urls target first) :
    (s.withMap (a ++ first :: b)).groupRows urls skips (a.length + 1) =
      match b.findIdx? (s.isMatch urls target) with
      | none => s.withMap (a ++ first :: b)
      | some j => s.withMap (a ++ b.modify j (· ++ first.head?.toList)) := by
  have hget : (a ++ first :: b)[a.length]? = some first := by simp
  have ⟨row, _, hrow⟩ := hh.heads first (by simp)
  have ha : a.findIdx? (fun rows => rows.head? ≠ some row && s.isMatch urls target rows) = none :=
    List.findIdx?_eq_none_iff.mpr fun rows hr => by simp [hn _ hr]
  have hb : b.findIdx? (fun rows => rows.head? ≠ some row && s.isMatch urls target rows) =
      b.findIdx? (s.isMatch urls target) := List.findIdx?_congr fun rows hr => by
    have hn := hh.nodup
    simp only [List.map_append, List.map_cons, List.nodup_append, List.nodup_cons, hrow] at hn
    have hd : rows.head? ≠ some row := fun heq => hn.2.1.1 (List.mem_map.mpr ⟨rows, hr, heq⟩)
    simp [hd]
  rw [groupRows, groupRow_of_moves hs hh h hget hm hrow, List.findIdx?_append, ha, List.findIdx?_cons, hb]
  cases b.findIdx? (s.isMatch urls target) with
  | none =>
    simp only [hrow, ne_eq, not_true, decide_false, Bool.false_and, Bool.false_eq_true, if_false, Option.map_none,
      Option.or_none]
    exact groupRows_done hs hn
  | some j =>
    simp only [hrow, ne_eq, not_true, decide_false, Bool.false_and, Bool.false_eq_true, if_false, Option.map_some,
      Option.none_or, List.modify_append_cons, List.eraseIdx_length_append]
    exact groupRows_done hs hn

end Skips

theorem groupRows_first_stays {skips : List Nat → Bool}
    (hs : ∀ rows, skips rows = !appsMatch urls target (s.rep urls rows)) (hn : ∀ rows ∈ a, ¬s.isMatch urls target rows) (hm : ¬s.moves urls target first) :
    (s.withMap (a ++ first :: b)).groupRows urls skips (a.length + 1) = s.withMap (a ++ first :: b) := by
  rw [groupRows, groupRow_of_not_moves hs (by simp) hm]
  exact groupRows_done hs hn

def matchingRows (urls : QUrls QUrl) (s : TaskGroupingProxyModel QUrl) (task : Task QUrl) : List (List Nat) :=
  s.rowMap.filter (s.isMatch urls task)

-- No group is added to another row: of a group only the first task would be added there.
def KeepsMembers (urls : QUrls QUrl) (s : TaskGroupingProxyModel QUrl) (target : Task QUrl) : Prop :=
  match s.matchingRows urls target with
  | [] => True
  | first :: others =>
    (∀ rows ∈ others, s.isGroupable urls (s.rep urls rows) → ¬isGroup rows) ∧
    (s.isGroupable urls (s.rep urls first) → (∃ rows ∈ others, ¬s.isGroupable urls (s.rep urls rows)) →
      ¬isGroup first ∧ ∀ rows ∈ others, ¬s.isGroupable urls (s.rep urls rows))

theorem length_eq_one_iff_not_isGroup (h : rows ≠ []) : rows.length = 1 ↔ ¬isGroup rows := by
  have := List.length_pos_iff.mpr h
  simp only [isGroup, decide_eq_true_eq]
  omega

theorem groupRows_complete_iff {skips : List Nat → Bool}
    (hs : ∀ rows, skips rows = !appsMatch urls target (s.rep urls rows)) (h : s.Complete) (ha : s.Agrees urls target) :
    (s.groupRows urls skips s.rowMap.length).Complete ↔ s.KeepsMembers urls target := by
  have hw : s.groupRows urls skips s.rowMap.length = (s.withMap s.rowMap).groupRows urls skips s.rowMap.length := rfl
  rw [hw, KeepsMembers, matchingRows]
  cases hf : s.rowMap.find? (s.isMatch urls target) with
  | none =>
    have hn : ∀ rows ∈ s.rowMap, ¬s.isMatch urls target rows := List.find?_eq_none.mp hf
    rw [groupRows_unmatched hs (by simpa using hn), List.filter_eq_nil_iff.mpr hn]
    exact iff_of_true h trivial
  | some first =>
    obtain ⟨hf, a, b, hm, hn⟩ := List.find?_eq_some_iff_append.mp hf
    have hn : ∀ rows ∈ a, ¬s.isMatch urls target rows := by simpa using hn
    have hp : Partitions (List.range s.sourceModel.length) (a ++ first :: b) := hm ▸ h
    have hh : s.Headed (a ++ first :: (b ++ [])) := by
      rw [List.append_nil, ← hm]
      exact .of_partitions h
    have hl : (a ++ first :: b).length = a.length + 1 + b.length := by
      simp
      omega
    have hgo := groupRows_others hs ha hn hh hf
    rw [List.append_nil, List.append_nil] at hgo
    rw [hm, hl, hgo, List.filter_append, List.filter_eq_nil_iff.mpr hn, List.nil_append, List.filter_cons_of_pos hf]
    have one {rows : List Nat} (hr : rows ∈ b) : rows.length = 1 ↔ ¬isGroup rows :=
      length_eq_one_iff_not_isGroup (hp.nonempty _ (by simp [hr]))
    have hgather := hp.gather_iff (s.moves urls target)
    have hothers : (∀ rows ∈ b, s.moves urls target rows → rows.length = 1) ↔
        ∀ rows ∈ b.filter (s.isMatch urls target), s.isGroupable urls (s.rep urls rows) → ¬isGroup rows := by
      simp only [List.mem_filter, moves, Bool.and_eq_true, and_imp]
      exact forall₂_congr fun rows hr => by rw [one hr]
    obtain ⟨row, _, hrow⟩ := hh.heads first (by simp)
    have hh := (hh.extend ((b.reverse.filter (s.moves urls target)).filterMap List.head?)).sublist
      ((((List.filter_sublist (p := (!s.moves urls target ·))).trans (List.sublist_append_left b [])).cons_cons _)
        |>.append_left a)
    cases hmoves : s.moves urls target first with
    | false =>
      have hng : ¬s.isGroupable urls (s.rep urls first) := fun hg => by simp [moves, hf, hg] at hmoves
      rw [groupRows_first_stays hs hn (by simp [moves_append hrow, hmoves]), withMap_complete_iff, hgather, hothers]
      exact (and_iff_left fun hg => (hng hg).elim).symm
    | true =>
      have hg : s.isGroupable urls (s.rep urls first) := (Bool.and_eq_true_iff.mp hmoves).2
      rw [groupRows_first hs ha hn hh ((moves_append hrow _).trans hmoves)]
      cases hj : (b.filter (!s.moves urls target ·)).findIdx? (s.isMatch urls target) with
      | none =>
        rw [withMap_complete_iff, hgather, hothers]
        refine (and_iff_left ?_).symm
        rintro - ⟨rows, hr, hng⟩
        obtain ⟨hr, hmr⟩ := List.mem_filter.mp hr
        have hstay : rows ∈ b.filter (!s.moves urls target ·) := List.mem_filter.mpr ⟨hr, by simp [moves, hng]⟩
        exact absurd hmr (Bool.eq_false_iff.mp (List.findIdx?_eq_none_iff.mp hj _ hstay))
      | some j =>
        obtain ⟨hlt, hmr, _⟩ := List.findIdx?_eq_some_iff_getElem.mp hj
        have hd : (first ++ (b.reverse.filter (s.moves urls target)).filterMap List.head?).head? = first.head? := by
          rw [List.head?_append, hrow]
          rfl
        have hfirst := length_eq_one_iff_not_isGroup (hp.nonempty first (by simp))
        rw [withMap_complete_iff, hd, hp.gather_into_iff _ hlt, hfirst]
        obtain ⟨hr, hs⟩ := List.mem_filter.mp (List.getElem_mem hlt)
        have hnone : (∀ rows ∈ b, ¬s.moves urls target rows) ↔
            ∀ rows ∈ b.filter (s.isMatch urls target), ¬s.isGroupable urls (s.rep urls rows) := by
          simp [List.mem_filter, moves]
        have hleft : ∃ rows ∈ b.filter (s.isMatch urls target), ¬s.isGroupable urls (s.rep urls rows) := by
          refine ⟨_, List.mem_filter.mpr ⟨hr, hmr⟩, fun hg => ?_⟩
          rw [moves, hmr, hg] at hs
          cases hs
        rw [hnone]
        exact ⟨fun hk => ⟨fun rows hr hg => (hk.2 rows hr hg).elim, fun _ _ => hk⟩, fun hk => hk.2 hg hleft⟩

end TaskGroupingProxyModel
end TaskManager

namespace TaskManager.TaskGroupingProxyModel

variable {QUrl : Type} [DecidableEq QUrl] {urls : QUrls QUrl} {s : TaskGroupingProxyModel QUrl}

def IsLone (s : TaskGroupingProxyModel QUrl) : QModelIndex → Prop
  | .item row => ¬s.rowMap[row]?.any isGroup
  | _ => True

-- A toggle that turns the grouping on again takes the index out of the blacklists first.
def TogglesSafely (urls : QUrls QUrl) (s : TaskGroupingProxyModel QUrl) : Event QUrl → Prop
  | .requestToggleGrouping index =>
    s.togglesOn urls index → s.groupMode ≠ .groupDisabled → s.IsLone index.topLevel →
      (s.unblacklist urls index).KeepsMembers urls (s.data urls index.topLevel)
  | _ => True

theorem AppsTransitive.agrees_data {index : QModelIndex} (h : s.AppsTransitive urls) :
    s.Agrees urls (s.data urls index) := by
  rw [data]
  cases hi : s.mapToSource index with
  | none => exact agrees_invalid
  | some row =>
    have hlt : row < s.sourceModel.length := by
      cases index with
      | invalid => cases hi
      | item => simpa using (Option.filter_eq_some_iff.mp hi).2
      | child => simpa using (Option.filter_eq_some_iff.mp hi).2
    apply h.agrees
    rw [Option.map_some, Option.getD_some, task, List.getElem?_eq_getElem hlt]
    exact List.getElem_mem hlt

theorem Complete.formGroupFor_iff {index : QModelIndex} (h : s.Complete) (ht : s.AppsTransitive urls) :
    (s.formGroupFor urls index.topLevel).Complete ↔
      (s.IsLone index.topLevel → s.KeepsMembers urls (s.data urls index.topLevel)) := by
  have hform {index : QModelIndex} := groupRows_complete_iff (fun _ => rfl) h (@AppsTransitive.agrees_data _ _ _ s index ht)
  have hitem {row : Nat} : (s.formGroupFor urls (.item row)).Complete ↔
      (s.IsLone (.item row) → s.KeepsMembers urls (s.data urls (.item row))) := by
    rw [TaskGroupingProxyModel.formGroupFor, IsLone]
    cases hg : s.rowMap[row]?.any isGroup with
    | true => simp [h]
    | false => simp [hform]
  cases index with
  | invalid => exact hform.trans (by simp [IsLone, QModelIndex.topLevel])
  | item => exact hitem
  | child => exact hitem

theorem Complete.requestToggleGrouping_iff {index : QModelIndex} (h : s.Complete) (ht : s.AppsTransitive urls) :
    (s.requestToggleGrouping urls index).Complete ↔ s.TogglesSafely urls (.requestToggleGrouping index) := by
  rw [TaskGroupingProxyModel.requestToggleGrouping, TogglesSafely]
  split
  case isTrue hon =>
    have hc : (s.unblacklist urls index).Complete := h
    have ha : (s.unblacklist urls index).AppsTransitive urls := ht
    dsimp only
    split
    case isTrue hmode =>
      exact (hc.formGroupFor_iff ha).trans ⟨fun hk _ _ => hk, fun hk => hk hon hmode⟩
    case isFalse hmode => exact iff_of_true hc fun _ hm => (hmode hm).elim
  case isFalse hon =>
    refine iff_of_true ?_ fun ht => (hon ht).elim
    have hc : (s.blacklist urls index).Complete := h
    dsimp only
    split
    case isFalse => exact hc
    case isTrue =>
      split
      case h_1 => exact hc.breakGroupFor
      case h_2 => exact hc

theorem step_complete_iff {event : Event QUrl} {s' : TaskGroupingProxyModel QUrl} (h : s.Complete)
    (ht : s.AppsTransitive urls) (hs : s.step urls event = some s') : s'.Complete ↔ s.TogglesSafely urls event := by
  cases event with
  | requestToggleGrouping index =>
    rw [step, Option.ite_none_right_eq_some] at hs
    cases hs.2
    exact h.requestToggleGrouping_iff ht
  | sourceRowsInserted start tasks =>
    rw [step, Option.ite_none_right_eq_some] at hs
    cases hs.2
    exact iff_of_true (h.sourceRowsInserted hs.1) trivial
  | sourceRowsRemoved start count =>
    rw [step, Option.ite_none_right_eq_some] at hs
    cases hs.2
    exact iff_of_true (h.sourceRowsRemoved hs.1) trivial
  | sourceDataChanged topLeft tasks roles =>
    rw [step, Option.ite_none_right_eq_some] at hs
    cases hs.2
    exact iff_of_true (h.sourceDataChanged hs.1) trivial
  | sourceModelReset tasks =>
    cases hs
    exact iff_of_true rebuildMap_complete trivial
  | sourceLayoutChanged tasks =>
    cases hs
    exact iff_of_true rebuildMap_complete trivial
  | setGroupMode mode =>
    cases hs
    exact iff_of_true h.setGroupMode trivial
  | setGroupDemandingAttention group =>
    cases hs
    exact iff_of_true h.setGroupDemandingAttention trivial
  | setWindowTasksThreshold threshold =>
    cases hs
    exact iff_of_true h.setWindowTasksThreshold trivial
  | setBlacklistedAppIds list =>
    cases hs
    exact iff_of_true h.setBlacklistedAppIds trivial
  | setBlacklistedLauncherUrls list =>
    cases hs
    exact iff_of_true h.setBlacklistedLauncherUrls trivial

-- Every task is in one place of the row map, and is found again by its place.
def KeepsTasks (s : TaskGroupingProxyModel QUrl) : Prop :=
  s.Complete ∧ ∀ row < s.sourceModel.length, s.mapToSource (s.mapFromSource row) = some row

omit [DecidableEq QUrl] in
theorem keepsTasks_iff : s.KeepsTasks ↔ s.Complete :=
  ⟨And.left, fun h => ⟨h, fun _ => h.mapToSource_mapFromSource⟩⟩

theorem tasks_kept_iff (s : TaskGroupingProxyModel QUrl) (tasks : List (Task QUrl)) (events : List (Event QUrl))
    (ht : Machine.Always (step urls) (AppsTransitive urls) (s.rebuildMap urls tasks) events) :
    Machine.Always (step urls) KeepsTasks (s.rebuildMap urls tasks) events ↔
      Machine.EachStep (step urls) (TogglesSafely urls) (s.rebuildMap urls tasks) events := by
  refine Machine.always_iff_eachStep ht (keepsTasks_iff.mpr rebuildMap_complete) fun s event s' hk ha hs => ?_
  rw [keepsTasks_iff] at hk ⊢
  exact step_complete_iff hk ha hs

-- Three windows of one application, of which the last demands attention.
def threeWindows : List (Task String) :=
  [⟨true, false, "konsole", "applications:org.kde.konsole.desktop"⟩,
    ⟨true, false, "konsole", "applications:org.kde.konsole.desktop"⟩,
    ⟨true, true, "konsole", "applications:org.kde.konsole.desktop"⟩]

def plainUrls : QUrls String where
  empty := ""
  isValid := (· ≠ "")
  toString := id
  not_isValid_empty := rfl

instance (s : TaskGroupingProxyModel String) : Decidable (s.AppsTransitive plainUrls) :=
  inferInstanceAs (Decidable (∀ a ∈ s.sourceModel, _))

theorem tasks_kept_toggle :
    Machine.Always (step plainUrls) KeepsTasks (rebuildMap plainUrls {} threeWindows)
        [.requestToggleGrouping (.item 0)] ↔
      Machine.EachStep (step plainUrls) (TogglesSafely plainUrls) (rebuildMap plainUrls {} threeWindows)
        [.requestToggleGrouping (.item 0)] :=
  tasks_kept_iff {} threeWindows [.requestToggleGrouping (.item 0)]
    ⟨by decide, fun s' h => Option.some.inj h ▸ (by decide : AppsTransitive plainUrls _)⟩

-- The group is broken and formed again: the second window is added to the first, and then the first alone to the third.
theorem not_always_keepsTasks :
    ¬Machine.Always (step plainUrls) KeepsTasks (rebuildMap plainUrls {} threeWindows)
      [.requestToggleGrouping (.item 0), .requestToggleGrouping (.item 0)] := by
  intro h
  have hk : KeepsTasks _ := ((h.2 _ rfl).2 _ rfl)
  have hl := hk.1.perm.length_eq
  revert hl
  decide

end TaskManager.TaskGroupingProxyModel
