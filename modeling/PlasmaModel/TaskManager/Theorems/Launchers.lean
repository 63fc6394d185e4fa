import Mathlib.Data.List.Perm.Subperm
import PlasmaModel.Lib.Runs
import PlasmaModel.TaskManager.Launchers

namespace TaskManager

section

variable {QUrl : Type} (system : System QUrl)

-- Launchers match if and only if these URLs are equal.
def canonicalUrl (url : QUrl) : QUrl :=
  tryResolveToApplicationsUrl system (system.removeQuery url)

variable [DecidableEq QUrl] {system} {a b : QUrl}

theorem launcherUrlsMatch_iff : launcherUrlsMatch system a b ↔ canonicalUrl system a = canonicalUrl system b :=
  decide_eq_true_iff

end

namespace LauncherTasksModel

variable {QUrl : Type} [DecidableEq QUrl] (system : System QUrl) (all : Activities)

structure Consistent (s : LauncherTasksModel QUrl) : Prop where
  distinct : s.launchersOrder.Pairwise fun a b => ¬launcherUrlsMatch system a b
  keys     : ∀ url, url ∈ s.activitiesForLauncher ↔ url ∈ s.launchersOrder
  nonempty : ∀ url activities, s.activitiesForLauncher.lookup url = some activities → ¬activities.isEmpty

variable {system all} {s new : LauncherTasksModel QUrl} {url launcher : QUrl} {activities : ActivitiesSet}
variable {launchers : List QUrl}

theorem activities_of_lookup (h : s.activitiesForLauncher.lookup url = some activities) :
    s.activities url = (activities, s) := by
  rw [LauncherTasksModel.activities, h]

theorem collapse_nonempty (h : ¬activities.isEmpty) : ¬(collapse all activities).isEmpty := by
  rw [collapse]
  split
  case isTrue => exact fun h => QSet.isEmpty_iff.mp h nullUuid (QSet.mem_singleton.mpr rfl)
  case isFalse => exact h

theorem isEmpty_singleton {a : String} : ¬({a} : ActivitiesSet).isEmpty :=
  fun h => QSet.isEmpty_iff.mp h a (QSet.mem_singleton.mpr rfl)

theorem newActivities_nonempty {current : Option ActivitiesSet} (hn : ¬activities.isEmpty) :
    ¬(newActivities activities current).isEmpty := by
  cases current
  case none => exact hn
  case some current =>
    rw [newActivities]
    split
    case isTrue => exact isEmpty_singleton
    case isFalse =>
      split
      case isTrue => exact hn
      case isFalse =>
        rw [QSet.isEmpty_iff] at hn ⊢
        exact fun hall => hn fun a ha => hall a (QSet.mem_union.mpr (.inl ha))

theorem readActivities_nonempty {read : List String} (h : readActivities all read = some activities) :
    ¬activities.isEmpty := by
  rw [readActivities] at h
  split at h
  case isTrue =>
    cases h
    exact isEmpty_singleton
  case isFalse =>
    have ⟨hn, h⟩ := Option.ite_none_left_eq_some.mp h
    cases h
    exact hn

namespace Consistent

theorem nodup (h : s.Consistent system) : s.launchersOrder.Nodup :=
  h.distinct.imp fun hne heq => hne (launcherUrlsMatch_iff.mpr (congrArg _ heq))

theorem lookup (h : s.Consistent system) (hm : url ∈ s.launchersOrder) :
    ∃ activities, s.activitiesForLauncher.lookup url = some activities ∧ ¬activities.isEmpty :=
  have ⟨activities, hl⟩ := Hash.mem_iff.mp ((h.keys url).mpr hm)
  ⟨activities, hl, h.nonempty url activities hl⟩

theorem insert (h : s.Consistent system) (hm : url ∈ s.launchersOrder) (hn : ¬activities.isEmpty) :
    { s with activitiesForLauncher := s.activitiesForLauncher.insert url activities }.Consistent system := by
  refine { h with keys := fun url' => ?_, nonempty := fun url' activities' hl => ?_ }
  · rw [AList.mem_insert, h.keys]
    exact or_iff_right_of_imp fun heq => heq ▸ hm
  · rw [Hash.lookup_insert] at hl
    split at hl
    case isTrue => exact Option.some.inj hl ▸ hn
    case isFalse => exact h.nonempty url' activities' hl

theorem append (h : s.Consistent system) (hm : ∀ launcher ∈ s.launchersOrder, ¬launcherUrlsMatch system url launcher)
    (hn : ¬activities.isEmpty) :
    Consistent system
      ⟨s.launchersOrder ++ [url], s.activitiesForLauncher.insert url activities⟩ := by
  constructor
  case distinct =>
    rw [List.pairwise_append]
    refine ⟨h.distinct, List.pairwise_singleton _ _, fun launcher hl url' hu => ?_⟩
    cases List.mem_singleton.mp hu
    rw [launcherUrlsMatch_iff, eq_comm, ← launcherUrlsMatch_iff]
    exact hm launcher hl
  case keys =>
    intro url'
    rw [AList.mem_insert, h.keys, List.mem_append, List.mem_singleton, or_comm]
  case nonempty =>
    intro url' activities' hl
    rw [Hash.lookup_insert] at hl
    split at hl
    case isTrue => exact Option.some.inj hl ▸ hn
    case isFalse => exact h.nonempty url' activities' hl

theorem erase (h : s.Consistent system) :
    Consistent system ⟨s.launchersOrder.erase url, s.activitiesForLauncher.erase url⟩ := by
  constructor
  case distinct => exact h.distinct.sublist List.erase_sublist
  case keys =>
    intro url'
    rw [AList.mem_erase, h.keys, h.nodup.mem_erase_iff]
  case nonempty =>
    intro url' activities' hl
    rw [Hash.lookup_erase] at hl
    exact h.nonempty url' activities' (Option.ite_none_left_eq_some.mp hl).2

theorem setActivitiesForLauncher (h : s.Consistent system) (hm : url ∈ s.launchersOrder) (hn : ¬activities.isEmpty) :
    (s.setActivitiesForLauncher all url activities).Consistent system :=
  h.insert hm (collapse_nonempty hn)

theorem requestAddLauncherToActivities (h : s.Consistent system) {activities : List String} (hn : activities ≠ []) :
    (s.requestAddLauncherToActivities system all url activities).2.Consistent system := by
  have hn : ¬(QSet.ofList activities).isEmpty := by
    intro he
    have ⟨activity, ha⟩ := List.exists_mem_of_ne_nil _ hn
    exact QSet.isEmpty_iff.mp he activity (QSet.mem_ofList.mpr ha)
  rw [LauncherTasksModel.requestAddLauncherToActivities]
  split
  case isTrue => exact h
  case isFalse =>
    dsimp only
    split
    case h_1 launcher hf =>
      have hm := List.mem_of_find?_eq_some hf
      have ⟨current, hl, _⟩ := h.lookup hm
      rw [activities_of_lookup hl]
      dsimp only
      split
      case isTrue => exact h
      case isFalse => exact h.setActivitiesForLauncher hm (newActivities_nonempty hn)
    case h_2 hf =>
      have hm : ∀ launcher ∈ s.launchersOrder, ¬launcherUrlsMatch system (tryResolveToApplicationsUrl system url) launcher :=
        fun launcher hl => List.find?_eq_none.mp hf launcher hl
      exact h.append hm (collapse_nonempty hn)

end Consistent

theorem consistent_empty : ({} : LauncherTasksModel QUrl).Consistent system where
  distinct := .nil
  keys _ := iff_of_false (AList.notMem_empty _) List.not_mem_nil
  nonempty _ _ hl := absurd hl nofun

namespace Consistent

theorem addActivities (h : s.Consistent system) (hm : url ∈ s.launchersOrder) (hn : ¬activities.isEmpty) :
    (s.addActivities url activities).Consistent system := by
  rw [LauncherTasksModel.addActivities]
  split
  case h_1 => exact h.insert hm hn
  case h_2 =>
    split
    case isTrue => exact h
    case isFalse =>
      split
      case isTrue => exact h.insert hm isEmpty_singleton
      case isFalse =>
        apply h.insert hm
        rw [QSet.isEmpty_iff] at hn ⊢
        exact fun hall => hn fun a ha => hall a (QSet.mem_union.mpr (.inr ha))

theorem readLauncher (h : s.Consistent system) (serializedLauncher : String) :
    (s.readLauncher system all serializedLauncher).Consistent system := by
  rw [LauncherTasksModel.readLauncher]
  dsimp only
  split
  case isTrue => exact h
  case isFalse =>
    split
    case h_1 => exact h
    case h_2 activities hr =>
      have hn : ¬activities.isEmpty := readActivities_nonempty hr
      split
      case h_1 item hf => exact h.addActivities (List.mem_of_find?_eq_some hf) hn
      case h_2 hf =>
        have hm := List.find?_eq_none.mp hf
        have hkey : (deserializeLauncher system serializedLauncher).1 ∉ s.activitiesForLauncher :=
          fun hk => hm _ ((h.keys _).mp hk) (launcherUrlsMatch_iff.mpr rfl)
        rw [LauncherTasksModel.addActivities, Hash.notMem_iff.mp hkey]
        exact h.append hm hn

theorem readLaunchers (h : s.Consistent system) (serializedLaunchers : List String) :
    (serializedLaunchers.foldl (LauncherTasksModel.readLauncher system all) s).Consistent system := by
  induction serializedLaunchers generalizing s
  case nil => exact h
  case cons serializedLauncher _ ih => exact ih (h.readLauncher serializedLauncher)

end Consistent

-- The rows before the first one that has not been looked at are in order.
theorem moveRows_append {settled rest : List QUrl} (hp : launchers.Perm rest) (hn : (settled ++ rest).Nodup) :
    moveRows launchers settled.length (settled ++ rest) = settled ++ launchers := by
  induction launchers generalizing settled rest
  case nil => rw [List.nil_perm.mp hp, moveRows]
  case cons url launchers ih =>
    have hm : url ∈ rest := hp.subset List.mem_cons_self
    have hs : url ∉ settled := fun hs => (List.disjoint_of_nodup_append hn) hs hm
    have hperm : launchers.Perm (rest.erase url) := (List.cons_perm_iff_perm_erase.mp hp).2
    have hnodup : ((settled ++ [url]) ++ rest.erase url).Nodup := by
      apply (List.Perm.nodup_iff _).mpr hn
      rw [List.append_assoc]
      exact (List.perm_cons_erase hm).symm.append_left settled
    have hmoved : moveRows launchers (settled ++ [url]).length ((settled ++ [url]) ++ rest.erase url) =
        (settled ++ [url]) ++ launchers := ih hperm hnodup
    rw [moveRows, ListMove.moveTo_append hm hs]
    simpa using hmoved

theorem perm_of_isOrderChanged (hnew : new.launchersOrder.Nodup)
    (h : (new.launchersOrder.all (· ∈ launchers) && new.launchersOrder.length = launchers.length) = true) :
    new.launchersOrder.Perm launchers := by
  have ⟨hall, hlength⟩ := (Bool.and_eq_true _ _).mp h
  have hsub : new.launchersOrder ⊆ launchers := fun url hu => of_decide_eq_true (List.all_eq_true.mp hall url hu)
  exact (List.subperm_of_subset hnew hsub).perm_of_length_le (Nat.le_of_eq (of_decide_eq_true hlength).symm)

theorem moveRows_perm (h : launchers.Perm s.launchersOrder) (hn : s.launchersOrder.Nodup) :
    moveRows launchers 0 s.launchersOrder = launchers := by
  have hmoved : moveRows launchers ([] : List QUrl).length ([] ++ s.launchersOrder) = [] ++ launchers :=
    moveRows_append h hn
  exact hmoved

theorem Consistent.updateActivities (h : s.Consistent system) (hnew : new.Consistent system)
    (hm : url ∈ s.launchersOrder) (hu : url ∈ new.launchersOrder) :
    (updateActivities new s url).Consistent system ∧ (updateActivities new s url).launchersOrder = s.launchersOrder := by
  have ⟨_, hl, _⟩ := h.lookup hm
  have ⟨_, hl', hn⟩ := hnew.lookup hu
  rw [LauncherTasksModel.updateActivities, activities_of_lookup hl, activities_of_lookup hl']
  dsimp only
  split
  case isTrue => exact ⟨h, rfl⟩
  case isFalse => exact ⟨h.insert hm hn, rfl⟩

theorem Consistent.updateAll (h : s.Consistent system) (hnew : new.Consistent system)
    (hs : launchers ⊆ s.launchersOrder) (hn : launchers ⊆ new.launchersOrder) :
    (launchers.foldl (LauncherTasksModel.updateActivities new) s).Consistent system := by
  induction launchers generalizing s
  case nil => exact h
  case cons url launchers ih =>
    have ⟨hu, heq⟩ := h.updateActivities hnew (hs List.mem_cons_self) (hn List.mem_cons_self)
    apply ih hu
    · exact heq ▸ (List.cons_subset.mp hs).2
    · exact (List.cons_subset.mp hn).2

theorem Consistent.setLauncherList (h : s.Consistent system) (serializedLaunchers : List String) :
    (s.setLauncherList system all serializedLaunchers).Consistent system := by
  have hnew : (serializedLaunchers.foldl (LauncherTasksModel.readLauncher system all) {}).Consistent system :=
    consistent_empty.readLaunchers serializedLaunchers
  rw [LauncherTasksModel.setLauncherList]
  dsimp only
  split
  case isTrue =>
    split
    case isTrue ho =>
      have hp := perm_of_isOrderChanged hnew.nodup ho
      rw [moveRows_perm hp h.nodup]
      exact { h with distinct := hnew.distinct, keys := fun url => (h.keys url).trans hp.mem_iff.symm }
    case isFalse =>
      split
      case isTrue =>
        split
        case isTrue => exact h
        case isFalse => exact consistent_empty
      case isFalse => exact hnew
  case isFalse heq =>
    have heq := not_not.mp heq
    split
    case isTrue => exact h.updateAll hnew (List.Subset.refl _) (heq ▸ List.Subset.refl _)
    case isFalse => exact h

section

variable (all)

-- The activities that a launcher is shown on.
def activitiesOf (activities : ActivitiesSet) : List String :=
  if isOnAllActivities activities.values then all.ids else activities.values

-- The activities that are left to a launcher.
def remaining (currentActivities : ActivitiesSet) (activities : List String) : List String :=
  if isOnAllActivities activities then [] else (activitiesOf all currentActivities).filter (· ∉ activities)

-- The launcher goes with its last activity.
def RemovedFrom (s s' : LauncherTasksModel QUrl) (launcher : QUrl) (activities : List String) : Prop :=
  ∃ currentActivities, s.activitiesForLauncher.lookup launcher = some currentActivities ∧
    if remaining all currentActivities activities = [] then
      s'.launchersOrder = s.launchersOrder.erase launcher ∧ ∀ url, s'.activitiesForLauncher.lookup url =
        if url = launcher then none else s.activitiesForLauncher.lookup url
    else
      s'.launchersOrder = s.launchersOrder ∧
        (∃ newActivities, s'.activitiesForLauncher.lookup launcher = some newActivities ∧
          ∀ activity, activity ∈ activitiesOf all newActivities ↔ activity ∈ remaining all currentActivities activities) ∧
        ∀ url ≠ launcher, s'.activitiesForLauncher.lookup url = s.activitiesForLauncher.lookup url

variable (system)

-- The first launcher that the URL matches, if there is one, and no other.
def RemovesExactly (s s' : LauncherTasksModel QUrl) (url : QUrl) (activities : List String) : Prop :=
  match s.launchersOrder.find? (rowMatches system url) with
  | none => s' = s
  | some launcher => RemovedFrom all s s' launcher activities

-- The request is for the very URL of that launcher. A launcher on all activities does not leave all of them one by
-- one, and only the set of all activities has as many of them.
def Addressed (s : LauncherTasksModel QUrl) (url : QUrl) (activities : List String) : Prop :=
  ∀ launcher ∈ s.launchersOrder.find? (rowMatches system url), launcher = url ∧
    ∀ currentActivities ∈ s.activitiesForLauncher.lookup url, ¬isOnAllActivities activities →
      if isOnAllActivities currentActivities.values then
        ∃ activity ∈ all.ids, activity ∉ activities
      else
        (currentActivities.filter (· ∉ activities)).size = all.ids.length →
          ∀ activity, activity ∈ currentActivities.filter (· ∉ activities) ↔ activity ∈ all.ids

end

variable {currentActivities newActivities : ActivitiesSet} {listed : List String}

theorem isOnAllActivities_iff : isOnAllActivities activities.values ↔ activities.isEmpty ∨ nullUuid ∈ activities := by
  rw [isOnAllActivities, Bool.or_eq_true, decide_eq_true_eq]
  rfl

theorem mem_activitiesOf_collapse (hn : ¬newActivities.isEmpty) (hnull : nullUuid ∉ newActivities)
    (hsize : newActivities.size = all.ids.length → ∀ activity, activity ∈ newActivities ↔ activity ∈ all.ids)
    (activity : String) : activity ∈ activitiesOf all (collapse all newActivities) ↔ activity ∈ newActivities := by
  rw [collapse]
  split
  case isTrue h => exact (hsize h activity).symm
  case isFalse =>
    have hall : ¬isOnAllActivities newActivities.values :=
      fun h => (isOnAllActivities_iff.mp h).elim hn hnull
    rw [activitiesOf, if_neg hall]
    rfl

-- What a change leaves to the launcher.
def Change.Leaves (change : Change) (all : Activities) (currentActivities : ActivitiesSet) (left : List String) : Prop :=
  match change with
  | .remove => left = []
  | .update newActivities =>
    ¬newActivities.isEmpty ∧ left ≠ [] ∧
      ∀ activity, activity ∈ activitiesOf all (collapse all newActivities) ↔ activity ∈ left
  | .keep => left ≠ [] ∧ ∀ activity, activity ∈ activitiesOf all currentActivities ↔ activity ∈ left

theorem changeOf_leaves
    (h : ¬isOnAllActivities listed →
      if isOnAllActivities currentActivities.values then
        ∃ activity ∈ all.ids, activity ∉ listed
      else
        (currentActivities.filter (· ∉ listed)).size = all.ids.length →
          ∀ activity, activity ∈ currentActivities.filter (· ∉ listed) ↔ activity ∈ all.ids) :
    (changeOf all currentActivities listed).Leaves all currentActivities (remaining all currentActivities listed) := by
  by_cases hlisted : isOnAllActivities listed
  case pos =>
    have hr : remaining all currentActivities listed = [] := if_pos hlisted
    have hc : changeOf all currentActivities listed = .remove := by
      rw [changeOf, if_pos hlisted, if_pos hlisted]
      exact ite_self _
    rw [hc]
    exact hr
  case neg =>
    have h := h hlisted
    rw [changeOf, if_neg hlisted, if_neg hlisted, remaining, if_neg hlisted, activitiesOf]
    split
    case isTrue hall =>
      rw [if_pos hall] at h
      have ⟨activity, ha, hl⟩ := h
      have hne : all.ids.filter (· ∉ listed) ≠ [] :=
        List.ne_nil_of_mem (List.mem_filter.mpr ⟨ha, decide_eq_true hl⟩)
      split
      case isTrue hany =>
        have hn : ¬(QSet.ofList (all.ids.filter (· ∉ listed))).isEmpty := fun he =>
          QSet.isEmpty_iff.mp he activity (QSet.mem_ofList.mpr (List.mem_filter.mpr ⟨ha, decide_eq_true hl⟩))
        refine ⟨hn, hne, fun activity => ?_⟩
        rw [mem_activitiesOf_collapse hn, QSet.mem_ofList]
        case hnull => exact fun hn => all.notNull (List.mem_filter.mp (QSet.mem_ofList.mp hn)).1
        case hsize =>
          have ⟨other, ho, hol⟩ := List.any_eq_true.mp hany
          have hlt : (all.ids.filter (· ∉ listed)).length < all.ids.length :=
            List.length_filter_lt_length_iff_exists.mpr ⟨other, ho, by simpa using hol⟩
          exact fun hsize => absurd (hsize ▸ QSet.size_ofList_le) (Nat.not_le.mpr hlt)
      case isFalse hany =>
        refine ⟨hne, fun activity => ?_⟩
        rw [activitiesOf, if_pos hall, List.mem_filter]
        refine (and_iff_left_of_imp fun hm => ?_).symm
        exact decide_eq_true fun hlisted => hany (List.any_eq_true.mpr ⟨activity, hm, decide_eq_true hlisted⟩)
    case isFalse hall =>
      rw [if_neg hall] at h
      have hnull : nullUuid ∉ currentActivities := fun hn => hall (isOnAllActivities_iff.mpr (.inr hn))
      dsimp only
      split
      case isTrue he => exact List.isEmpty_iff.mp he
      case isFalse he =>
        refine ⟨he, fun hnil => he (List.isEmpty_iff.mpr hnil), fun activity => ?_⟩
        exact mem_activitiesOf_collapse he (fun hn => hnull (QSet.mem_filter.mp hn).1) h activity

variable {row : Nat} {pre : List QUrl}

theorem requestRemoveFromRow_append (h : ∀ launcher ∈ pre, ¬rowMatches system url launcher) :
    requestRemoveFromRow system all url listed row (pre ++ launchers) s =
      requestRemoveFromRow system all url listed (row + pre.length) launchers s := by
  induction pre generalizing row
  case nil => rfl
  case cons launcher pre ih =>
    have ⟨hl, hpre⟩ := List.forall_mem_cons.mp h
    rw [List.cons_append, requestRemoveFromRow, if_neg hl, ih hpre, List.length_cons, Nat.add_assoc, Nat.add_comm 1]

theorem requestRemoveFromRow_keep (hl : s.activitiesForLauncher.lookup url = some currentActivities)
    (hc : changeOf all currentActivities listed = .keep) :
    requestRemoveFromRow system all url listed row launchers s = (false, s) := by
  induction launchers generalizing row
  case nil => rfl
  case cons launcher launchers ih =>
    rw [requestRemoveFromRow]
    split
    case isTrue =>
      rw [activities_of_lookup hl]
      dsimp only
      rw [hc]
      exact ih
    case isFalse => exact ih

theorem Consistent.removesExactly (h : s.Consistent system) (ha : s.Addressed system all url listed) :
    RemovesExactly system all s (s.requestRemoveLauncherFromActivities system all url listed).2 url listed ∧
      (s.requestRemoveLauncherFromActivities system all url listed).2.Consistent system := by
  rw [RemovesExactly, requestRemoveLauncherFromActivities]
  split
  case h_1 hf =>
    have hnone : ∀ launcher ∈ s.launchersOrder, ¬rowMatches system url launcher :=
      fun launcher hl => List.find?_eq_none.mp hf launcher hl
    have heq : requestRemoveFromRow system all url listed 0 (s.launchersOrder ++ []) s =
        requestRemoveFromRow system all url listed (0 + s.launchersOrder.length) [] s :=
      requestRemoveFromRow_append hnone
    rw [List.append_nil] at heq
    rw [heq]
    exact ⟨rfl, h⟩
  case h_2 launcher hf =>
    have ⟨hlauncher, hleaves⟩ := ha launcher hf
    subst hlauncher
    have hm := List.mem_of_find?_eq_some hf
    have ⟨currentActivities, hl, _⟩ := h.lookup hm
    have hleaves := changeOf_leaves (hleaves currentActivities hl)
    have ⟨hmatch, pre, post, horder, hpre⟩ := List.find?_eq_some_iff_append.mp hf
    have hpre : ∀ other ∈ pre, ¬rowMatches system launcher other := fun other ho => by simpa using hpre other ho
    have hstep : requestRemoveFromRow system all launcher listed 0 s.launchersOrder s =
        requestRemoveFromRow system all launcher listed (0 + pre.length) (launcher :: post) s :=
      (congrArg (requestRemoveFromRow system all launcher listed 0 · s) horder).trans (requestRemoveFromRow_append hpre)
    rw [hstep, requestRemoveFromRow, if_pos hmatch, activities_of_lookup hl]
    dsimp only
    cases hc : changeOf all currentActivities listed
    all_goals rw [hc] at hleaves
    case remove =>
      have hidx : s.launchersOrder.idxOf launcher = pre.length := by
        rw [horder, List.idxOf_append_of_notMem fun hm => hpre launcher hm hmatch]
        simp
      have herase : s.launchersOrder.eraseIdx (0 + pre.length) = s.launchersOrder.erase launcher := by
        rw [Nat.zero_add, ← hidx, List.eraseIdx_idxOf_eq_erase]
      dsimp only
      rw [herase]
      refine ⟨⟨currentActivities, hl, ?_⟩, h.erase⟩
      have hnil : remaining all currentActivities listed = [] := hleaves
      rw [if_pos hnil]
      exact ⟨rfl, fun _ => Hash.lookup_erase⟩
    case update newActivities =>
      have ⟨hn, hne, hnew⟩ := hleaves
      refine ⟨⟨currentActivities, hl, ?_⟩, h.setActivitiesForLauncher hm hn⟩
      rw [if_neg hne]
      refine ⟨rfl, ⟨_, AList.lookup_insert _, hnew⟩, fun url hu => AList.lookup_insert_ne hu⟩
    case keep =>
      have ⟨hne, hkeep⟩ := hleaves
      dsimp only
      rw [requestRemoveFromRow_keep hl hc]
      refine ⟨⟨currentActivities, hl, ?_⟩, h⟩
      rw [if_neg hne]
      exact ⟨rfl, ⟨currentActivities, hl, hkeep⟩, fun _ _ => rfl⟩

end LauncherTasksModel

inductive LauncherEvent (QUrl : Type)
  | requestAddLauncher (url : QUrl)
  | requestRemoveLauncher (url : QUrl)
  | requestAddLauncherToActivity (url : QUrl) (activity : String)
  | requestRemoveLauncherFromActivity (url : QUrl) (activity : String)
  | setLauncherList (serializedLaunchers : List String)

namespace LauncherTasksModel

section

variable {QUrl : Type} [DecidableEq QUrl] (system : System QUrl)

-- A request with the activities that exist when it is made.
def step (s : LauncherTasksModel QUrl) : Activities × LauncherEvent QUrl → Option (LauncherTasksModel QUrl)
  | (all, .requestAddLauncher url) => some (s.requestAddLauncher system all url).2
  | (all, .requestRemoveLauncher url) => some (s.requestRemoveLauncher system all url).2
  | (all, .requestAddLauncherToActivity url activity) => some (s.requestAddLauncherToActivity system all url activity).2
  | (all, .requestRemoveLauncherFromActivity url activity) =>
    some (s.requestRemoveLauncherFromActivity system all url activity).2
  | (all, .setLauncherList serializedLaunchers) => some (s.setLauncherList system all serializedLaunchers)

-- Requests to remove launchers are addressed to them.
def AddressedEvent (s : LauncherTasksModel QUrl) : Activities × LauncherEvent QUrl → Prop
  | (all, .requestRemoveLauncher url) => s.Addressed system all url [nullUuid]
  | (all, .requestRemoveLauncherFromActivity url activity) => s.Addressed system all url [activity]
  | _ => True

def Removes (s s' : LauncherTasksModel QUrl) : Activities × LauncherEvent QUrl → Prop
  | (all, .requestRemoveLauncher url) => RemovesExactly system all s s' url [nullUuid]
  | (all, .requestRemoveLauncherFromActivity url activity) => RemovesExactly system all s s' url [activity]
  | _ => True

variable {system} {s s' : LauncherTasksModel QUrl} {event : Activities × LauncherEvent QUrl}

theorem Consistent.step (h : s.Consistent system) (ha : s.AddressedEvent system event)
    (hs : s.step system event = some s') : Removes system s s' event ∧ s'.Consistent system := by
  match event, ha, hs with
  | (_, .requestAddLauncher _), _, rfl => exact ⟨trivial, h.requestAddLauncherToActivities (List.cons_ne_nil _ _)⟩
  | (_, .requestRemoveLauncher _), ha, rfl => exact h.removesExactly ha
  | (_, .requestAddLauncherToActivity _ _), _, rfl =>
    exact ⟨trivial, h.requestAddLauncherToActivities (List.cons_ne_nil _ _)⟩
  | (_, .requestRemoveLauncherFromActivity _ _), ha, rfl => exact h.removesExactly ha
  | (_, .setLauncherList _), _, rfl => exact ⟨trivial, h.setLauncherList _⟩

-- In every run whose requests to remove launchers are addressed to them.
theorem launchers_consistent (h : Machine.Reaches (step system) (AddressedEvent system) {} s) :
    s.Consistent system ∧
      ∀ event s', s.AddressedEvent system event → s.step system event = some s' → Removes system s s' event := by
  have hs : s.Consistent system := h.invariant consistent_empty fun _ _ _ hs ha he => (hs.step ha he).2
  exact ⟨hs, fun event s' ha he => (hs.step ha he).1⟩

end

-- URLs are texts, and the browser that is preferred is Firefox.
def browserSystem : System String where
  url := id
  toString := id
  isEmpty := (· = "")
  isValid _ := true
  isLocalFile _ := false
  scheme url := if url = "preferred://browser" then "preferred" else "applications"
  removeQuery := id
  menuId _ := ""
  defaultApplication _ := "firefox.desktop"
  appUrl url := if url = "preferred://browser" then "applications:firefox.desktop" else url

def twoActivities : Activities where
  ids := ["A", "B"]

def firefox : String :=
  "applications:firefox.desktop"

def firefoxPinned : LauncherTasksModel String :=
  (requestAddLauncher browserSystem twoActivities {} firefox).2

-- A launcher on all activities leaves one of them.
theorem firefoxPinned_addressed :
    firefoxPinned.AddressedEvent browserSystem (twoActivities, .requestRemoveLauncherFromActivity firefox "A") := by
  intro launcher hl
  refine ⟨(Option.some.inj hl).symm, fun currentActivities hc _ => ?_⟩
  cases hc
  exact ⟨"B", by decide, by decide⟩

theorem launchers_consistent_remaining : ∃ s : LauncherTasksModel String,
    s.activitiesForLauncher.lookup firefox = some {"B"} ∧ s.Consistent browserSystem := by
  have hadd : AddressedEvent browserSystem {} (twoActivities, .requestAddLauncher firefox) := trivial
  have hr : Machine.Reaches (step browserSystem) (AddressedEvent browserSystem) {} _ :=
    (Machine.Reaches.refl.tail hadd rfl).tail firefoxPinned_addressed rfl
  exact ⟨_, by decide, (launchers_consistent hr).1⟩

-- The row of the browser is found, and the activities of another launcher are removed.
theorem launchers_consistent_preferred : ∃ s : LauncherTasksModel String,
    Machine.Reaches (step browserSystem) (fun _ _ => True) {} s ∧ ¬s.Consistent browserSystem := by
  refine ⟨_, .of_run [(twoActivities, .requestAddLauncher "preferred://browser"),
    (twoActivities, .requestRemoveLauncher "applications:firefox.desktop")] rfl, fun h => ?_⟩
  have hk := (h.keys "preferred://browser").mp (Hash.mem_iff.mpr ⟨{nullUuid}, by decide⟩)
  exact absurd hk (by decide)

end LauncherTasksModel
end TaskManager
