import Mathlib.Data.List.FinRange
import Mathlib.Data.List.OfFn
import Mathlib.Logic.Equiv.Fin.Basic
import PlasmaModel.TaskManager.Theorems.FormGroup

namespace TaskManager.TaskGroupingProxyModel

variable {QUrl : Type} [DecidableEq QUrl] {urls : QUrls QUrl} {s : TaskGroupingProxyModel QUrl}
variable {m m' : List (List Nat)} {rows rows' : List Nat} {i a b h : Nat}

def IsGroupable (urls : QUrls QUrl) (s : TaskGroupingProxyModel QUrl) (row : Nat) : Prop :=
  s.isGroupable urls (s.task urls row) = true

instance : Decidable (s.IsGroupable urls a) :=
  inferInstanceAs (Decidable (_ = true))

def IsWindow (urls : QUrls QUrl) (s : TaskGroupingProxyModel QUrl) (row : Nat) : Prop :=
  (s.task urls row).isWindow = true

def Match (urls : QUrls QUrl) (s : TaskGroupingProxyModel QUrl) (row other : Nat) : Prop :=
  appsMatch urls (s.task urls row) (s.task urls other) = true

theorem Match.symm (h : s.Match urls a b) : s.Match urls b a :=
  appsMatch_symm h

omit [DecidableEq QUrl] in
theorem task_mem (h : a < s.sourceModel.length) : s.task urls a ∈ s.sourceModel := by
  rw [task, List.getElem?_eq_getElem h]
  exact List.getElem_mem h

theorem AppsTransitive.match_trans {c : Nat} (ht : s.AppsTransitive urls) (ha : a < s.sourceModel.length)
    (hb : b < s.sourceModel.length) (hc : c < s.sourceModel.length) (h : s.Match urls a b) (h' : s.Match urls b c) :
    s.Match urls a c :=
  ht _ (task_mem ha) _ (task_mem hb) _ (task_mem hc) h h'

omit [DecidableEq QUrl] in
theorem IsGroupable.isWindow [DecidableEq QUrl] (h : s.IsGroupable urls a) : s.IsWindow urls a := by
  simp only [IsGroupable, isGroupable, Bool.and_eq_true] at h
  exact h.1.1

-- The rows from `i` on are tried. The ones that match an earlier window are in the list of the first one.
structure Settled (urls : QUrls QUrl) (s : TaskGroupingProxyModel QUrl) (i : Nat) (m : List (List Nat)) : Prop where
  partitions : Partitions (List.range s.sourceModel.length) m
  heads      : ∀ k < i, ∃ rows, m[k]? = some rows ∧ rows.head? = some k
  joined     : ∀ rows ∈ m, ∀ h, rows.head? = some h → ∀ a ∈ rows, a ≠ h →
    s.IsGroupable urls a ∧ s.IsWindow urls h ∧ s.Match urls a h
  first      : ∀ a, i ≤ a → s.IsGroupable urls a → ∀ j < a, s.IsWindow urls j → s.Match urls a j →
    ∀ rows ∈ m, a ∈ rows → ∃ h ≤ j, rows.head? = some h

namespace Settled

theorem lt (hs : s.Settled urls i m) (hr : rows ∈ m) (ha : a ∈ rows) : a < s.sourceModel.length :=
  List.mem_range.mp (hs.partitions.mem_iff.mpr ⟨rows, hr, ha⟩)

theorem unique (hs : s.Settled urls i m) (hr : rows ∈ m) (hr' : rows' ∈ m) (ha : a ∈ rows) (ha' : a ∈ rows') :
    rows = rows' :=
  hs.partitions.unique List.nodup_range hr hr' ha ha'

end Settled

-- The row that is tried, if it is alone.
theorem groupRow_singleton (hi : m[i]? = some [i]) : (s.withMap m).groupRow urls isGroup i =
    if s.isGroupable urls (s.task urls i) then
      match m.findIdx? fun rows => rows.head? ≠ some i && s.isMatch urls (s.task urls i) rows with
      | none => s.withMap m
      | some k => s.withMap ((m.modify k (· ++ [i])).eraseIdx i)
    else
      s.withMap m := by
  have hget : (s.withMap m).rowMap[i]? = some [i] := hi
  have hg : isGroup [i] = false := rfl
  simp only [groupRow, hget, hg, List.head?_cons, Option.bind_some, tryToGroup_withMap]
  by_cases h : s.isGroupable urls (s.task urls i) = true
  case pos =>
    rw [if_pos h]
    cases m.findIdx? fun rows => rows.head? ≠ some i && s.isMatch urls (s.task urls i) rows with
    | none => simp
    | some k => simp [withMap, h]
  case neg => simp [if_neg h]

theorem mem_moved {k : Nat} {x : List Nat} (hk : m[k]? = some rows) (hx : x ∈ (m.modify k (· ++ [i])).eraseIdx i) :
    x = rows ++ [i] ∨ ∃ j, j ≠ i ∧ j ≠ k ∧ m[j]? = some x := by
  have ⟨j, hne, hj⟩ := List.mem_eraseIdx_iff_getElem?.mp hx
  rw [List.getElem?_modify] at hj
  by_cases heq : k = j
  case pos =>
    subst heq
    rw [hk] at hj
    simp at hj
    exact .inl hj.symm
  case neg =>
    simp [heq] at hj
    exact .inr ⟨j, hne, Ne.symm heq, hj⟩

namespace Settled

theorem exists_ne (hs : s.Settled urls i m) (hr : rows ∈ m) (hh : rows.head? = some h) (hg : isGroup rows = true) :
    ∃ b ∈ rows, b ≠ h := by
  have hn := hs.partitions.nodup List.nodup_range hr
  match rows, hh, hg with
  | a :: b :: _, hh, _ =>
    obtain rfl := Option.some.inj hh
    exact ⟨b, by simp, fun heq => (List.nodup_cons.mp hn).1 (heq ▸ List.mem_cons_self)⟩

-- A list at `i` whose row is tried holds nothing else unless the row is the first of its application.
theorem stays (hs : s.Settled urls (i + 1) m) (ht : s.AppsTransitive urls) (hi : m[i]? = some rows)
    (hhead : rows.head? = some i) (hg : isGroup rows = true) : s.Settled urls i m := by
  refine ⟨hs.partitions, fun k hk => hs.heads k (by omega), hs.joined, ?_⟩
  intro a ha hga j hj hw hm rows' hr' ha'
  rcases Nat.lt_or_eq_of_le ha with ha | rfl
  · exact hs.first a ha hga j hj hw hm rows' hr' ha'
  · exfalso
    have hr := List.mem_of_getElem? hi
    -- Another member of the list would have gone to the earlier window.
    have ⟨b, hb, hne⟩ := hs.exists_ne hr hhead hg
    have ⟨hgb, _, hmb⟩ := hs.joined rows hr i hhead b hb hne
    have hbi : i < b := by
      by_contra hle
      have ⟨rowsb, hrb, hheadb⟩ := hs.heads b (by omega)
      have heq := hs.unique hr (List.mem_of_getElem? hrb) hb (List.mem_of_mem_head? hheadb)
      rw [heq, hheadb] at hhead
      exact hne (Option.some.inj hhead)
    have hi' := List.mem_of_mem_head? hhead
    have hlt := hs.lt hr hi'
    have hmbj := ht.match_trans (hs.lt hr hb) hlt (by omega) hmb hm
    have ⟨h, hle, hhead'⟩ := hs.first b hbi hgb j (by omega) hw hmbj rows hr hb
    have heq := Option.some.inj (hhead.symm.trans hhead')
    omega

-- Nothing to join: the row is not groupable, or no other list is of its application.
theorem stays_alone (hs : s.Settled urls (i + 1) m)
    (hnone : s.IsGroupable urls i → ∀ rows ∈ m, rows.head? ≠ some i → ¬s.isMatch urls (s.task urls i) rows) :
    s.Settled urls i m := by
  refine ⟨hs.partitions, fun k hk => hs.heads k (by omega), hs.joined, ?_⟩
  intro a ha hga j hj hw hm rows' hr' ha'
  rcases Nat.lt_or_eq_of_le ha with ha | rfl
  · exact hs.first a ha hga j hj hw hm rows' hr' ha'
  · have ⟨rowsj, hrj, hheadj⟩ := hs.heads j (by omega)
    refine absurd ?_ (hnone hga rowsj (List.mem_of_getElem? hrj) ?_)
    · rw [isMatch, rep_of_head? hheadj, Bool.and_eq_true]
      exact ⟨hw, hm⟩
    · rw [hheadj]
      exact fun heq => absurd (Option.some.inj heq) (by omega)

theorem joins {k : Nat} (hs : s.Settled urls (i + 1) m) (hi : m[i]? = some [i])
    (hg : s.IsGroupable urls i)
    (hk : m.findIdx? (fun rows => rows.head? ≠ some i && s.isMatch urls (s.task urls i) rows) = some k) :
    s.Settled urls i ((m.modify k (· ++ [i])).eraseIdx i) := by
  obtain ⟨hklt, hp, hmin⟩ := List.findIdx?_eq_some_iff_getElem.mp hk
  have hrk : m[k]? = some (m[k]) := List.getElem?_eq_getElem hklt
  generalize m[k] = rowsk at hp hrk
  have hmk := List.mem_of_getElem? hrk
  obtain ⟨h, hhead⟩ : ∃ h, rowsk.head? = some h :=
    Option.isSome_iff_exists.mp (List.isSome_head?.mpr (hs.partitions.nonempty _ hmk))
  simp only [isMatch, rep_of_head? hhead, hhead, ne_eq, Option.some.injEq, Bool.and_eq_true, decide_eq_true_eq] at hp
  obtain ⟨hne, hw, hm⟩ := hp
  have hki : k ≠ i := by
    rintro rfl
    rw [Option.some.inj (hrk.symm.trans hi)] at hhead
    exact hne (Option.some.inj hhead).symm
  have hhead' : (rowsk ++ [i]).head? = some h := by rw [List.head?_append, hhead]; rfl
  have hpart := hs.partitions.move hi hklt hki
  have hmem : rowsk ++ [i] ∈ (m.modify k (· ++ [i])).eraseIdx i := by
    refine List.mem_eraseIdx_iff_getElem?.mpr ⟨k, hki, ?_⟩
    rw [List.getElem?_modify, hrk]
    simp
  refine ⟨hpart, fun q hq => ?_, fun x hx => ?_, fun a ha hga j hj hwj hmj x hx hax => ?_⟩
  · obtain ⟨rowsq, hrq, hheadq⟩ := hs.heads q (by omega)
    rw [List.getElem?_eraseIdx_of_lt hq, List.getElem?_modify, hrq]
    by_cases heq : k = q
    case pos => exact ⟨rowsq ++ [i], by simp [heq], by rw [List.head?_append, hheadq]; rfl⟩
    case neg => exact ⟨rowsq, by simp [heq], hheadq⟩
  · rcases mem_moved hrk hx with rfl | ⟨q, _, _, hq⟩
    · intro h' hh' a ha hne'
      obtain rfl := Option.some.inj (hhead'.symm.trans hh')
      rcases List.mem_append.mp ha with ha | ha
      · exact hs.joined rowsk hmk h hhead a ha hne'
      · obtain rfl := List.mem_singleton.mp ha
        exact ⟨hg, hw, hm⟩
    · exact hs.joined x (List.mem_of_getElem? hq)
  · rcases Nat.lt_or_eq_of_le ha with ha | rfl
    · rcases mem_moved hrk hx with rfl | ⟨q, _, _, hq⟩
      · have hax : a ∈ rowsk := by
          rcases List.mem_append.mp hax with hax | hax
          · exact hax
          · exact absurd (List.mem_singleton.mp hax) (by omega)
        obtain ⟨h', hle, hh'⟩ := hs.first a ha hga j hj hwj hmj rowsk hmk hax
        exact ⟨h', hle, by rw [hhead', ← hhead, hh']⟩
      · exact hs.first a ha hga j hj hwj hmj x (List.mem_of_getElem? hq) hax
    · obtain rfl := hpart.unique List.nodup_range hx hmem hax (by simp)
      refine ⟨h, ?_, hhead'⟩
      -- The search would have stopped at the earlier window.
      obtain ⟨rowsj, hrj, hheadj⟩ := hs.heads j (by omega)
      have hkj : k ≤ j := by
        by_contra hlt
        have heq := (List.getElem?_eq_some_iff.mp hrj).2
        refine hmin j (by omega) ?_
        simp only [heq, isMatch, rep_of_head? hheadj, hheadj, ne_eq, Option.some.injEq, Bool.and_eq_true,
          decide_eq_true_eq]
        exact ⟨by omega, hwj, hmj⟩
      obtain ⟨rows', hr', hh'⟩ := hs.heads k (by omega)
      rw [Option.some.inj (hrk.symm.trans hr'), hh'] at hhead
      exact Option.some.inj hhead ▸ hkj

theorem groupRow (hs : s.Settled urls (i + 1) m) (ht : s.AppsTransitive urls) :
    ∃ m', (s.withMap m).groupRow urls isGroup i = s.withMap m' ∧ s.Settled urls i m' := by
  obtain ⟨rows, hi, hhead⟩ := hs.heads i (by omega)
  by_cases hg : isGroup rows = true
  case pos =>
    have hget : (s.withMap m).rowMap[i]? = some rows := hi
    exact ⟨m, by simp only [TaskGroupingProxyModel.groupRow, hget, hg, if_true], hs.stays ht hi hhead hg⟩
  case neg =>
    obtain ⟨row, hrow⟩ := eq_singleton_of_not_isGroup hg (hs.partitions.nonempty _ (List.mem_of_getElem? hi))
    subst hrow
    obtain rfl := Option.some.inj hhead
    rw [groupRow_singleton hi]
    by_cases hgroupable : s.isGroupable urls (s.task urls row) = true
    case neg =>
      rw [if_neg hgroupable]
      exact ⟨m, rfl, hs.stays_alone fun h => absurd h hgroupable⟩
    case pos =>
      rw [if_pos hgroupable]
      cases hk : m.findIdx? fun rows => rows.head? ≠ some row && s.isMatch urls (s.task urls row) rows with
      | none =>
        refine ⟨m, rfl, hs.stays_alone fun _ rows hr hne => ?_⟩
        have := List.findIdx?_eq_none_iff.mp hk rows hr
        simpa [hne] using this
      | some k => exact ⟨_, rfl, hs.joins hi hgroupable hk⟩

theorem groupRows (hs : s.Settled urls i m) (ht : s.AppsTransitive urls) :
    ∃ m', (s.withMap m).groupRows urls isGroup i = s.withMap m' ∧ s.Settled urls 0 m' := by
  induction i generalizing m
  case zero => exact ⟨m, rfl, hs⟩
  case succ i ih =>
    have ⟨m', heq, hs'⟩ := hs.groupRow ht
    rw [TaskGroupingProxyModel.groupRows, heq]
    exact ih hs'

theorem init : s.Settled urls s.sourceModel.length ((List.range s.sourceModel.length).map ([·])) := by
  refine ⟨.singletons _, fun k hk => ⟨[k], by simp [hk], rfl⟩, fun rows hr h hh a ha hne => ?_, ?_⟩
  · have ⟨row, _, heq⟩ := List.mem_map.mp hr
    subst heq
    obtain rfl := Option.some.inj hh
    exact absurd (List.mem_singleton.mp ha) hne
  · intro a ha _ j _ _ _ rows hr har
    have ⟨row, hrow, heq⟩ := List.mem_map.mp hr
    subst heq
    obtain rfl := List.mem_singleton.mp har
    exact absurd (List.mem_range.mp hrow) (by omega)

end Settled

def withTasks (s : TaskGroupingProxyModel QUrl) (tasks : List (Task QUrl)) : TaskGroupingProxyModel QUrl :=
  { s with sourceModel := tasks }

variable {tasks : List (Task QUrl)}

theorem rebuildMap_settled (hg : (s.withTasks tasks).shouldGroupTasks = true)
    (ht : (s.withTasks tasks).AppsTransitive urls) :
    ∃ m, s.rebuildMap urls tasks = (s.withTasks tasks).withMap m ∧ (s.withTasks tasks).Settled urls 0 m := by
  have ⟨m, heq, hs⟩ := Settled.groupRows Settled.init ht
  have hlength : ((List.range tasks.length).map ([·])).length = tasks.length := by simp
  refine ⟨m, (if_pos hg).trans ?_, hs⟩
  rw [← heq]
  exact congrArg (TaskGroupingProxyModel.groupRows urls _ isGroup) hlength

-- A window that must not be grouped has no groupable window of its application.
def Separate (urls : QUrls QUrl) (s : TaskGroupingProxyModel QUrl) (tasks : List (Task QUrl)) : Prop :=
  ∀ a ∈ tasks, ∀ b ∈ tasks, s.isGroupable urls a → b.isWindow → appsMatch urls a b → s.isGroupable urls b

instance : Decidable (s.Separate urls tasks) :=
  inferInstanceAs (Decidable (∀ a ∈ tasks, ∀ b ∈ tasks, _ → _ → _ → _))

namespace Settled

variable (hs : (s.withTasks tasks).Settled urls 0 m) (hsep : s.Separate urls tasks)
include hs hsep

theorem head_isGroupable (hr : rows ∈ m) (hh : rows.head? = some h) (ha : a ∈ rows) (hne : a ≠ h) :
    (s.withTasks tasks).IsGroupable urls h := by
  have ⟨hg, hw, hm⟩ := hs.joined rows hr h hh a ha hne
  have hh' := List.mem_of_mem_head? hh
  exact hsep _ (task_mem (hs.lt hr ha)) _ (task_mem (hs.lt hr hh')) hg hw hm

-- The head of a groupable row is the first window of its application.
theorem head_le (hr : rows ∈ m) (hh : rows.head? = some h) (ha : a ∈ rows)
    (hg : (s.withTasks tasks).IsGroupable urls a) : h ≤ a ∧ ∀ j, (s.withTasks tasks).IsWindow urls j →
      (s.withTasks tasks).Match urls a j → h ≤ j := by
  have hle : h ≤ a := by
    by_contra hlt
    have hne : a ≠ h := by omega
    have ⟨_, _, hm⟩ := hs.joined rows hr h hh a ha hne
    have ⟨h', hle, hh'⟩ := hs.first h (by omega) (hs.head_isGroupable hsep hr hh ha hne) a (by omega) hg.isWindow
      hm.symm rows hr (List.mem_of_mem_head? hh)
    have heq := Option.some.inj (hh.symm.trans hh')
    omega
  refine ⟨hle, fun j hw hm => ?_⟩
  by_cases hj : j < a
  case pos =>
    have ⟨h', hle', hh'⟩ := hs.first a (by omega) hg j hj hw hm rows hr ha
    have heq := Option.some.inj (hh.symm.trans hh')
    omega
  case neg => omega

variable (ht : (s.withTasks tasks).AppsTransitive urls)
include ht

theorem sound (hr : rows ∈ m) (hg : isGroup rows = true) (ha : a ∈ rows) (hb : b ∈ rows) :
    (s.withTasks tasks).IsGroupable urls a ∧ (s.withTasks tasks).Match urls a b := by
  have ⟨h, hh⟩ : ∃ h, rows.head? = some h :=
    Option.isSome_iff_exists.mp (List.isSome_head?.mpr (hs.partitions.nonempty _ hr))
  have hmem := List.mem_of_mem_head? hh
  have ⟨c, hc, hne⟩ : ∃ c ∈ rows, c ≠ h := hs.exists_ne hr hh hg
  have ⟨hgc, _, hmc⟩ := hs.joined rows hr h hh c hc hne
  have hgh := hs.head_isGroupable hsep hr hh hc hne
  have hlt : ∀ {row}, row ∈ rows → row < (s.withTasks tasks).sourceModel.length := fun hrow => hs.lt hr hrow
  -- All rows of the list match its head.
  have hmatch : ∀ row ∈ rows, (s.withTasks tasks).IsGroupable urls row ∧ (s.withTasks tasks).Match urls row h := by
    intro row hrow
    by_cases heq : row = h
    case pos =>
      subst heq
      exact ⟨hgh, ht.match_trans (hlt hmem) (hlt hc) (hlt hmem) hmc.symm hmc⟩
    case neg =>
      have ⟨hg, _, hm⟩ := hs.joined rows hr h hh row hrow heq
      exact ⟨hg, hm⟩
  exact ⟨(hmatch a ha).1, ht.match_trans (hlt ha) (hlt hmem) (hlt hb) (hmatch a ha).2 (hmatch b hb).2.symm⟩

theorem complete (hr : rows ∈ m) (hr' : rows' ∈ m) (ha : a ∈ rows) (hb : b ∈ rows')
    (hga : (s.withTasks tasks).IsGroupable urls a) (hgb : (s.withTasks tasks).IsGroupable urls b)
    (hm : (s.withTasks tasks).Match urls a b) : rows = rows' := by
  -- The head of the one list is a window of the application of the other.
  have hle : ∀ {rows rows' a b h h'}, rows ∈ m → rows' ∈ m → a ∈ rows → b ∈ rows' →
      (s.withTasks tasks).IsGroupable urls a → (s.withTasks tasks).IsGroupable urls b →
        (s.withTasks tasks).Match urls a b → rows.head? = some h → rows'.head? = some h' → h' ≤ h := by
    intro rows rows' a b h h' hr hr' ha hb hga hgb hm hh hh'
    by_cases heq : a = h
    case pos => exact (hs.head_le hsep hr' hh' hb hgb).2 h (heq ▸ hga.isWindow) (heq ▸ hm.symm)
    case neg =>
      have ⟨_, hw, hmh⟩ := hs.joined rows hr h hh a ha heq
      have hmem := List.mem_of_mem_head? hh
      have hmb := ht.match_trans (hs.lt hr' hb) (hs.lt hr ha) (hs.lt hr hmem) hm.symm hmh
      exact (hs.head_le hsep hr' hh' hb hgb).2 h hw hmb
  have hhead : ∀ rows ∈ m, ∃ h, rows.head? = some h := fun rows hr =>
    Option.isSome_iff_exists.mp (List.isSome_head?.mpr (hs.partitions.nonempty _ hr))
  have ⟨h, hh⟩ := hhead rows hr
  have ⟨h', hh'⟩ := hhead rows' hr'
  have heq := Nat.le_antisymm (hle hr hr' ha hb hga hgb hm hh hh') (hle hr' hr hb ha hgb hga hm.symm hh' hh)
  subst heq
  exact hs.unique hr hr' (List.mem_of_mem_head? hh) (List.mem_of_mem_head? hh')

end Settled

-- Whether two rows are in one list.
def Together (s : TaskGroupingProxyModel QUrl) (a b : Nat) : Prop :=
  ∃ rows ∈ s.rowMap, a ∈ rows ∧ b ∈ rows

-- The task of each row is the one that `σ` takes it from.
def permuted (tasks : List (Task QUrl)) (σ : Equiv.Perm (Fin tasks.length)) : List (Task QUrl) :=
  List.ofFn fun row => tasks.get (σ row)

-- The rows are grouped by their applications.
structure GroupsApplications (urls : QUrls QUrl) (s : TaskGroupingProxyModel QUrl) (tasks : List (Task QUrl)) :
    Prop where
  sound    : ∀ rows ∈ (s.rebuildMap urls tasks).rowMap, isGroup rows → ∀ a ∈ rows, ∀ b ∈ rows,
    (s.withTasks tasks).IsGroupable urls a ∧ (s.withTasks tasks).Match urls a b
  complete : ∀ rows ∈ (s.rebuildMap urls tasks).rowMap, ∀ rows' ∈ (s.rebuildMap urls tasks).rowMap,
    ∀ a ∈ rows, ∀ b ∈ rows', (s.withTasks tasks).IsGroupable urls a → (s.withTasks tasks).IsGroupable urls b →
      (s.withTasks tasks).Match urls a b → rows = rows'
  order    : ∀ (σ : Equiv.Perm (Fin tasks.length)) (a b : Fin tasks.length),
    (s.rebuildMap urls (permuted tasks σ)).Together a b ↔ (s.rebuildMap urls tasks).Together (σ a) (σ b)

theorem isGroup_of_mem (ha : a ∈ rows) (hb : b ∈ rows) (hne : a ≠ b) : isGroup rows = true := by
  match rows, ha, hb with
  | [c], ha, hb => exact absurd ((List.mem_singleton.mp ha).trans (List.mem_singleton.mp hb).symm) hne
  | _ :: _ :: _, _, _ => rfl

section Permuted

variable {σ : Equiv.Perm (Fin tasks.length)}

omit [DecidableEq QUrl] in
theorem permuted_perm : (permuted tasks σ).Perm tasks := by
  have hperm := Equiv.Perm.ofFn_comp_perm σ tasks.get
  rwa [List.ofFn_get] at hperm

omit [DecidableEq QUrl] in
theorem task_permuted (a : Fin tasks.length) :
    (s.withTasks (permuted tasks σ)).task urls a = (s.withTasks tasks).task urls (σ a) := by
  simp [task, withTasks, permuted]

omit [DecidableEq QUrl] in
theorem shouldGroupTasks_permuted :
    (s.withTasks (permuted tasks σ)).shouldGroupTasks = (s.withTasks tasks).shouldGroupTasks := by
  rw [shouldGroupTasks, shouldGroupTasks, withTasks, permuted_perm.countP_eq]
  rfl

theorem AppsTransitive.permuted (ht : (s.withTasks tasks).AppsTransitive urls) :
    (s.withTasks (permuted tasks σ)).AppsTransitive urls := by
  intro a ha b hb c hc
  exact ht a (permuted_perm.mem_iff.mp ha) b (permuted_perm.mem_iff.mp hb) c (permuted_perm.mem_iff.mp hc)

theorem Separate.permuted (hsep : s.Separate urls tasks) : s.Separate urls (permuted tasks σ) := by
  intro a ha b hb
  exact hsep a (permuted_perm.mem_iff.mp ha) b (permuted_perm.mem_iff.mp hb)

end Permuted

theorem Settled.together_iff (hs : (s.withTasks tasks).Settled urls 0 m)
    (ht : (s.withTasks tasks).AppsTransitive urls) (hsep : s.Separate urls tasks) (ha : a < tasks.length)
    (hb : b < tasks.length) : ((s.withTasks tasks).withMap m).Together a b ↔ a = b ∨
      (s.withTasks tasks).IsGroupable urls a ∧ (s.withTasks tasks).IsGroupable urls b ∧
        (s.withTasks tasks).Match urls a b := by
  have hmem : ∀ {row}, row < tasks.length → ∃ rows ∈ m, row ∈ rows := fun hrow =>
    hs.partitions.mem_iff.mp (List.mem_range.mpr hrow)
  refine ⟨fun ⟨rows, hr, har, hbr⟩ => ?_, fun h => ?_⟩
  · by_cases heq : a = b
    case pos => exact .inl heq
    case neg =>
      have hg := isGroup_of_mem har hbr heq
      have ⟨hga, hm⟩ := hs.sound hsep ht hr hg har hbr
      exact .inr ⟨hga, (hs.sound hsep ht hr hg hbr har).1, hm⟩
  · have ⟨rows, hr, har⟩ := hmem ha
    have ⟨rows', hr', hbr⟩ := hmem hb
    rcases h with rfl | ⟨hga, hgb, hm⟩
    · exact ⟨rows, hr, har, har⟩
    · obtain rfl := hs.complete hsep ht hr hr' har hbr hga hgb hm
      exact ⟨rows, hr, har, hbr⟩

theorem groupsApplications_of_separate (hg : (s.withTasks tasks).shouldGroupTasks = true)
    (ht : (s.withTasks tasks).AppsTransitive urls) (hsep : s.Separate urls tasks) :
    s.GroupsApplications urls tasks := by
  have ⟨m, heq, hs⟩ := rebuildMap_settled hg ht
  have hrow : (s.rebuildMap urls tasks).rowMap = m := by rw [heq]; rfl
  constructor
  case sound =>
    intro rows hr hgroup a ha b hb
    exact hs.sound hsep ht (hrow ▸ hr) hgroup ha hb
  case complete =>
    intro rows hr rows' hr' a ha b hb hga hgb hm
    exact hs.complete hsep ht (hrow ▸ hr) (hrow ▸ hr') ha hb hga hgb hm
  case order =>
    intro σ a b
    have ⟨m', heq', hs'⟩ := rebuildMap_settled (shouldGroupTasks_permuted.trans hg) (ht.permuted (σ := σ))
    have hlength : (permuted tasks σ).length = tasks.length := permuted_perm.length_eq
    rw [heq, heq', hs.together_iff ht hsep (σ a).isLt (σ b).isLt,
      hs'.together_iff ht.permuted hsep.permuted (by rw [hlength]; exact a.isLt) (by rw [hlength]; exact b.isLt)]
    simp only [IsGroupable, Match, task_permuted, Fin.val_inj, σ.injective.eq_iff]
    rfl

theorem separate_of_groupsApplications (hg : (s.withTasks tasks).shouldGroupTasks = true)
    (ht : (s.withTasks tasks).AppsTransitive urls) (h : s.GroupsApplications urls tasks) : s.Separate urls tasks := by
  intro x hx y hy hgx hw hm
  obtain ⟨a, ha, rfl⟩ := List.getElem_of_mem hx
  obtain ⟨b, hb, rfl⟩ := List.getElem_of_mem hy
  by_contra hgb
  have htask : ∀ {row} (hrow : row < tasks.length), (s.withTasks tasks).task urls row = tasks[row] := by
    intro row hrow
    rw [task, withTasks, List.getElem?_eq_getElem hrow]
    rfl
  have hne : a ≠ b := by
    rintro rfl
    exact hgb hgx
  -- In an order with the other window first, the groupable one is added to it.
  let first : Fin tasks.length := ⟨0, by omega⟩
  let σ := Equiv.swap first ⟨b, hb⟩
  have hfirst : σ first = ⟨b, hb⟩ := Equiv.swap_apply_left ..
  obtain ⟨a', ha'⟩ : ∃ a', σ a' = ⟨a, ha⟩ := σ.surjective _
  have hpos : 0 < a'.val := by
    refine Nat.pos_of_ne_zero fun heq => ?_
    have : a' = first := Fin.ext heq
    rw [this, hfirst] at ha'
    exact hne (Fin.val_inj.mpr ha').symm
  obtain ⟨m, heq, hs⟩ := rebuildMap_settled (shouldGroupTasks_permuted.trans hg) (ht.permuted (σ := σ))
  have htaska : (s.withTasks (permuted tasks σ)).task urls a' = tasks[a] := by
    rw [task_permuted, ha', htask ha]
  have htaskb : (s.withTasks (permuted tasks σ)).task urls 0 = tasks[b] := by
    rw [show 0 = first.val from rfl, task_permuted, hfirst, htask hb]
  have hlength : (permuted tasks σ).length = tasks.length := permuted_perm.length_eq
  have hlt : a'.val < (permuted tasks σ).length := by
    rw [hlength]
    exact a'.isLt
  obtain ⟨rows, hr, har⟩ := hs.partitions.mem_iff.mp (List.mem_range.mpr hlt)
  have hga : (s.withTasks (permuted tasks σ)).IsGroupable urls a' := by
    rw [IsGroupable, htaska]
    exact hgx
  obtain ⟨h', hle, hh'⟩ := hs.first a' (Nat.zero_le _) hga 0 hpos (by rw [IsWindow, htaskb]; exact hw)
    (by rw [Match, htaska, htaskb]; exact hm) rows hr har
  obtain rfl := Nat.le_zero.mp hle
  have htogether : (s.rebuildMap urls (permuted tasks σ)).Together first a' := by
    rw [heq]
    exact ⟨rows, hr, List.mem_of_mem_head? hh', har⟩
  obtain ⟨rows', hr', hb', ha''⟩ := (h.order σ first a').mp htogether
  rw [hfirst] at hb'
  rw [ha'] at ha''
  have hgb' := (h.sound rows' hr' (isGroup_of_mem ha'' hb' hne) b hb' a ha'').1
  rw [IsGroupable, htask hb] at hgb'
  exact hgb hgb'

-- An application of which some windows must not be grouped is not grouped as it should be, in this order or in another.
theorem groupsApplications_iff (s : TaskGroupingProxyModel QUrl) (tasks : List (Task QUrl))
    (hg : (s.withTasks tasks).shouldGroupTasks = true) (ht : (s.withTasks tasks).AppsTransitive urls) :
    s.GroupsApplications urls tasks ↔ s.Separate urls tasks :=
  ⟨separate_of_groupsApplications hg ht, groupsApplications_of_separate hg ht⟩

theorem groupsApplications_two : GroupsApplications plainUrls {} (threeWindows.take 2) :=
  (groupsApplications_iff {} (threeWindows.take 2) (by decide) (by decide)).mpr (by decide)

-- The window that demands attention is the first one of its application, and the other one is added to it.
theorem not_groupsApplications : ¬GroupsApplications plainUrls {} (threeWindows.drop 1).reverse := by
  intro h
  have hsound := (h.sound [0, 1] (by decide) rfl 0 (by decide) 1 (by decide)).1
  revert hsound
  decide

end TaskManager.TaskGroupingProxyModel
