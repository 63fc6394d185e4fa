import PlasmaModel.Lib.Buckets
import PlasmaModel.TaskManager.Theorems.Launchers

namespace TaskManager

section

variable {QUrl : Type} {system : System QUrl}

-- The text of a launcher is read as its URL, and it is not taken for a list of activities.
structure Lossless (system : System QUrl) : Prop where
  url       : ∀ url, system.url (system.toString url) = url
  noBracket : ∀ url, (system.toString url).toList.head? ≠ some '['

-- The ids of activities, which are separated by commas and enclosed in brackets.
def WellFormedId (id : String) : Prop :=
  id ≠ "" ∧ ',' ∉ id.toList ∧ ']' ∉ id.toList

theorem deserializeLauncher_toString (h : Lossless system) (url : QUrl) :
    deserializeLauncher system (system.toString url) = (url, [nullUuid]) := by
  rw [deserializeLauncher]
  split
  case h_1 hl => exact absurd (congrArg List.head? hl) (h.noBracket url)
  case h_2 => rw [h.url]

theorem splitActivities_append {activities rest : List Char} (h : ']' ∉ activities) :
    splitActivities (activities ++ ']' :: '\n' :: rest) = some (activities, rest) := by
  induction activities
  case nil => rfl
  case cons c activities ih =>
    rw [List.mem_cons, not_or] at h
    have hstep : splitActivities (c :: (activities ++ ']' :: '\n' :: rest)) =
        (splitActivities (activities ++ ']' :: '\n' :: rest)).map fun p => (c :: p.1, p.2) := by
      rw [splitActivities]
      exact fun rest' hc => absurd hc.symm h.1
    rw [List.cons_append, hstep, ih h.2]
    rfl

theorem mem_intercalate {c d : Char} {ls : List (List Char)} (h : c ∈ [d].intercalate ls) :
    c = d ∨ ∃ l ∈ ls, c ∈ l := by
  induction ls
  case nil => simp at h
  case cons l ls ih =>
    cases ls with
    | nil => exact .inr ⟨l, List.mem_singleton_self l, by simpa using h⟩
    | cons l' ls =>
      rw [List.intercalate_cons_cons, List.mem_append, List.mem_append, List.mem_singleton] at h
      cases h
      case inl h => exact h.elim (fun hc => .inr ⟨l, List.mem_cons_self, hc⟩) .inl
      case inr h =>
        apply (ih h).imp_right
        exact fun ⟨l'', hl, hc⟩ => ⟨l'', List.mem_cons_of_mem _ hl, hc⟩

theorem deserializeLauncher_activities (h : Lossless system) (url : QUrl) {ids : List String} (hne : ids ≠ [])
    (hids : ∀ id ∈ ids, WellFormedId id) :
    deserializeLauncher system ("[" ++ String.intercalate "," ids ++ "]\n" ++ system.toString url) = (url, ids) := by
  have hblock : (String.intercalate "," ids).toList = [','].intercalate (ids.map String.toList) :=
    String.toList_intercalate
  have hbracket : ']' ∉ [','].intercalate (ids.map String.toList) := by
    intro hm
    cases mem_intercalate hm
    case inl heq => exact absurd heq (by decide)
    case inr hm =>
      have ⟨_, hl, hc⟩ := hm
      have ⟨id, hid, heq⟩ := List.mem_map.mp hl
      exact (hids id hid).2.2 (heq ▸ hc)
  have hsplit : ([','].intercalate (ids.map String.toList)).splitOn ',' = ids.map String.toList := by
    apply List.splitOn_intercalate
    · exact List.forall_mem_map.mpr fun id hid => (hids id hid).2.1
    · simpa using hne
  have hlist : ("[" ++ String.intercalate "," ids ++ "]\n" ++ system.toString url).toList =
      '[' :: ([','].intercalate (ids.map String.toList) ++ ']' :: '\n' :: (system.toString url).toList) := by
    simp [String.toList_append, hblock]
  have hnonempty : (ids.map String.toList).filter (· ≠ []) = ids.map String.toList := by
    rw [List.filter_eq_self, List.forall_mem_map]
    exact fun id hid => decide_eq_true fun hnil => (hids id hid).1 (String.toList_eq_nil_iff.mp hnil)
  rw [deserializeLauncher, hlist]
  simp only
  rw [splitActivities_append hbracket]
  simp only
  rw [hsplit, hnonempty]
  split
  case h_1 hnil => exact absurd (List.map_eq_nil_iff.mp hnil) hne
  case h_2 =>
    rw [List.map_map, String.ofList_toList, h.url]
    have hid : (String.ofList ∘ String.toList) = id := funext fun _ => String.ofList_toList
    rw [hid, List.map_id]

end

namespace LauncherTasksModel

variable {QUrl : Type} [DecidableEq QUrl] {system : System QUrl} {all : Activities}
variable {s new : LauncherTasksModel QUrl} {launcher : QUrl} {launchers : List QUrl}

def activitiesAt (s : LauncherTasksModel QUrl) (launcher : QUrl) : ActivitiesSet :=
  (s.activitiesForLauncher.lookup launcher).getD ∅

def OnAll (s : LauncherTasksModel QUrl) (launcher : QUrl) : Prop :=
  isOnAllActivities (s.activitiesAt launcher).values

def WellFormed (s : LauncherTasksModel QUrl) : Prop :=
  ∀ launcher, ∀ id ∈ s.activitiesAt launcher, WellFormedId id

instance : Decidable (s.OnAll launcher) :=
  inferInstanceAs (Decidable (_ = true))

-- What is read of the activities of a launcher after they have been written.
def readBack (all : Activities) (s : LauncherTasksModel QUrl) (launcher : QUrl) : Option ActivitiesSet :=
  readActivities all (if s.OnAll launcher then [nullUuid] else (s.activitiesAt launcher).values)

theorem deserializeLauncher_serializeLauncher (hl : Lossless system) (hw : s.WellFormed) (launcher : QUrl) :
    deserializeLauncher system (s.serializeLauncher system launcher) =
      (launcher, if s.OnAll launcher then [nullUuid] else (s.activitiesAt launcher).values) := by
  rw [serializeLauncher]
  by_cases h : s.OnAll launcher
  case pos =>
    rw [if_pos h]
    exact (congrArg _ (if_pos h)).trans (deserializeLauncher_toString hl launcher)
  case neg =>
    have hne : (s.activitiesAt launcher).values ≠ [] := fun hnil => h (by rw [OnAll, hnil]; rfl)
    rw [if_neg h]
    exact (congrArg _ (if_neg h)).trans (deserializeLauncher_activities hl launcher hne (hw launcher))

def Kept (system : System QUrl) (all : Activities) (s : LauncherTasksModel QUrl) (launcher : QUrl) : Bool :=
  isValidLauncherUrl system launcher && (s.readBack all launcher).isSome

theorem readBack_of_onAll (h : s.OnAll launcher) : s.readBack all launcher = some {nullUuid} := by
  rw [readBack, if_pos h]
  rfl

theorem readBack_of_not_onAll (h : ¬s.OnAll launcher) : s.readBack all launcher =
    let valid := QSet.ofList ((s.activitiesAt launcher).values.filter (· ∈ all.ids))
    if valid.isEmpty then none else some valid := by
  rw [readBack, if_neg h, readActivities]
  exact if_neg h

theorem kept_iff : s.Kept system all launcher ↔ isValidLauncherUrl system launcher ∧
    (s.OnAll launcher ∨ ∃ id ∈ s.activitiesAt launcher, id ∈ all.ids) := by
  rw [Kept, Bool.and_eq_true_iff]
  apply and_congr_right'
  by_cases h : s.OnAll launcher
  case pos => simp [readBack_of_onAll h, h]
  case neg =>
    rw [readBack_of_not_onAll h, or_iff_right h]
    dsimp only
    split
    case isTrue he =>
      refine iff_of_false nofun fun ⟨id, hm, ha⟩ => QSet.isEmpty_iff.mp he id ?_
      exact QSet.mem_ofList.mpr (List.mem_filter.mpr ⟨hm, decide_eq_true ha⟩)
    case isFalse hn =>
      refine iff_of_true rfl ?_
      by_contra hnone
      refine hn (QSet.isEmpty_iff.mpr fun id hm => hnone ?_)
      have ⟨hm, ha⟩ := List.mem_filter.mp (QSet.mem_ofList.mp hm)
      exact ⟨id, hm, of_decide_eq_true ha⟩

theorem readLauncher_of_not_kept (hl : Lossless system) (hw : s.WellFormed) (hk : ¬s.Kept system all launcher) :
    new.readLauncher system all (s.serializeLauncher system launcher) = new := by
  rw [readLauncher, deserializeLauncher_serializeLauncher hl hw]
  simp only
  split
  case isTrue => rfl
  case isFalse hv =>
    split
    case h_1 => rfl
    case h_2 activities hr =>
      have hsome : (s.readBack all launcher).isSome := by rw [readBack, hr]; rfl
      exact absurd (Bool.and_eq_true_iff.mpr ⟨by simpa using hv, hsome⟩) hk

theorem readLauncher_of_kept (hl : Lossless system) (hw : s.WellFormed) (hnew : new.Consistent system)
    (hk : s.Kept system all launcher) (hd : ∀ other ∈ new.launchersOrder, ¬launcherUrlsMatch system launcher other) :
    ∃ activities, s.readBack all launcher = some activities ∧
      new.readLauncher system all (s.serializeLauncher system launcher) =
        ⟨new.launchersOrder ++ [launcher], new.activitiesForLauncher.insert launcher activities⟩ := by
  have ⟨hv, hsome⟩ := Bool.and_eq_true_iff.mp hk
  have ⟨activities, hr⟩ := Option.isSome_iff_exists.mp hsome
  have hfind : new.launchersOrder.find? (fun item => launcherUrlsMatch system launcher item) = none :=
    List.find?_eq_none.mpr hd
  have hkey : launcher ∉ new.activitiesForLauncher :=
    fun hm => hd launcher ((hnew.keys launcher).mp hm) (launcherUrlsMatch_iff.mpr rfl)
  refine ⟨activities, hr, ?_⟩
  rw [readBack] at hr
  rw [readLauncher, deserializeLauncher_serializeLauncher hl hw]
  simp only
  rw [if_neg (by simpa using hv), hr]
  simp only
  rw [hfind]
  simp only
  rw [addActivities, Hash.notMem_iff.mp hkey]

-- Launchers that do not match any other are read one after the other.
theorem readLaunchers_serialized (hl : Lossless system) (hw : s.WellFormed) (hnew : new.Consistent system)
    (hd : (new.launchersOrder ++ launchers).Pairwise fun a b => ¬launcherUrlsMatch system a b) :
    let read := (launchers.map (s.serializeLauncher system)).foldl (readLauncher system all) new
    read.launchersOrder = new.launchersOrder ++ launchers.filter (s.Kept system all) ∧
      (∀ launcher ∈ launchers, s.Kept system all launcher → read.activitiesForLauncher.lookup launcher = s.readBack all launcher) ∧
      ∀ launcher ∈ new.launchersOrder, read.activitiesForLauncher.lookup launcher = new.activitiesForLauncher.lookup launcher := by
  induction launchers generalizing new
  case nil => exact ⟨(List.append_nil _).symm, nofun, fun _ _ => rfl⟩
  case cons launcher launchers ih =>
    have hd' : (new.launchersOrder ++ [launcher] ++ launchers).Pairwise fun a b => ¬launcherUrlsMatch system a b := by
      rw [List.append_assoc]
      exact hd
    have hall : ∀ other ∈ new.launchersOrder, ¬launcherUrlsMatch system launcher other := by
      intro other ho
      rw [launcherUrlsMatch_iff, eq_comm, ← launcherUrlsMatch_iff]
      exact (List.pairwise_append.mp hd).2.2 other ho launcher List.mem_cons_self
    rw [List.map_cons, List.foldl_cons]
    by_cases hk : s.Kept system all launcher
    case neg =>
      have hd : (new.launchersOrder ++ launchers).Pairwise fun a b => ¬launcherUrlsMatch system a b :=
        hd.sublist ((List.sublist_cons_self launcher launchers).append_left _)
      have ⟨horder, hread, hrest⟩ := ih hnew hd
      rw [readLauncher_of_not_kept hl hw hk]
      refine ⟨?_, fun other ho hko => ?_, hrest⟩
      · rw [List.filter_cons_of_neg hk]
        exact horder
      · cases List.mem_cons.mp ho
        case inl heq => exact absurd (heq ▸ hko) hk
        case inr ho => exact hread other ho hko
    case pos =>
      have hread := readLauncher_of_kept hl hw hnew hk hall
      have hnew : (new.readLauncher system all (s.serializeLauncher system launcher)).Consistent system :=
        hnew.readLauncher _
      have ⟨activities, hback, heq⟩ := hread
      rw [heq] at hnew ⊢
      have ⟨horder, hread, hrest⟩ := ih hnew hd'
      refine ⟨?_, fun other ho hko => ?_, fun other ho => ?_⟩
      · rw [List.filter_cons_of_pos hk, horder, List.append_assoc]
        rfl
      · cases List.mem_cons.mp ho
        case inl heq =>
          subst heq
          exact (hrest other (List.mem_append_right _ (List.mem_singleton_self other))).trans
            ((AList.lookup_insert _).trans hback.symm)
        case inr ho => exact hread other ho hko
      · have hne : other ≠ launcher := fun heq => hall other ho (launcherUrlsMatch_iff.mpr (heq ▸ rfl))
        exact (hrest other (List.mem_append_left _ ho)).trans (AList.lookup_insert_ne hne)

theorem activities_fst (s : LauncherTasksModel QUrl) (url : QUrl) : (s.activities url).1 = s.activitiesAt url := by
  rw [activities, activitiesAt]
  cases s.activitiesForLauncher.lookup url <;> rfl

theorem activitiesAt_activities (s : LauncherTasksModel QUrl) (url launcher : QUrl) :
    (s.activities url).2.activitiesAt launcher = s.activitiesAt launcher := by
  rw [activities]
  cases hl : s.activitiesForLauncher.lookup url with
  | some _ => rfl
  | none =>
    rw [activitiesAt, activitiesAt, Hash.lookup_insert]
    split
    case isTrue heq => rw [heq, hl, Option.getD_some, Option.getD_none]
    case isFalse => rfl

theorem launchersOrder_activities (s : LauncherTasksModel QUrl) (url : QUrl) :
    (s.activities url).2.launchersOrder = s.launchersOrder := by
  rw [activities]
  cases s.activitiesForLauncher.lookup url <;> rfl

theorem launchersOrder_updateActivities (new s : LauncherTasksModel QUrl) (url : QUrl) :
    (updateActivities new s url).launchersOrder = s.launchersOrder := by
  rw [← launchersOrder_activities s url, updateActivities]
  dsimp only
  split <;> rfl

theorem mem_updateActivities (new s : LauncherTasksModel QUrl) (url launcher : QUrl) (id : String) :
    id ∈ (updateActivities new s url).activitiesAt launcher ↔
      id ∈ (if launcher = url then new else s).activitiesAt launcher := by
  rw [updateActivities]
  dsimp only
  rw [activities_fst, activities_fst]
  split
  case isTrue hsame =>
    rw [activitiesAt_activities]
    split
    case isTrue heq => exact heq ▸ QSet.isSame_iff.mp hsame id
    case isFalse => exact Iff.rfl
  case isFalse =>
    rw [activitiesAt, Hash.lookup_insert]
    split
    case isTrue heq => rw [Option.getD_some, heq]
    case isFalse => rw [← activitiesAt_activities s url launcher, activitiesAt]

theorem launchersOrder_updateAll (new s : LauncherTasksModel QUrl) (launchers : List QUrl) :
    (launchers.foldl (updateActivities new) s).launchersOrder = s.launchersOrder := by
  induction launchers generalizing s
  case nil => rfl
  case cons url launchers ih => rw [List.foldl_cons, ih, launchersOrder_updateActivities]

theorem mem_updateAll (new s : LauncherTasksModel QUrl) (launchers : List QUrl) (launcher : QUrl) (id : String) :
    id ∈ (launchers.foldl (updateActivities new) s).activitiesAt launcher ↔
      id ∈ (if launcher ∈ launchers then new else s).activitiesAt launcher := by
  induction launchers generalizing s
  case nil => rw [List.foldl_nil, if_neg List.not_mem_nil]
  case cons url launchers ih =>
    rw [List.foldl_cons, ih]
    by_cases hm : launcher ∈ launchers
    case pos => rw [if_pos hm, if_pos (List.mem_cons_of_mem _ hm)]
    case neg =>
      rw [if_neg hm, mem_updateActivities]
      simp only [List.mem_cons, hm, or_false]

-- What the setter makes of the launchers that have been read.
theorem setLauncherList_launchersOrder (s : LauncherTasksModel QUrl) {list : List String}
    (hread : list.foldl (readLauncher system all) {} = new) (hnew : new.launchersOrder.Nodup) :
    (s.setLauncherList system all list).launchersOrder = new.launchersOrder := by
  rw [LauncherTasksModel.setLauncherList, hread]
  dsimp only
  split
  case isTrue =>
    split
    case isTrue ho =>
      have hp := perm_of_isOrderChanged hnew ho
      exact moveRows_perm hp (hp.nodup_iff.mp hnew)
    case isFalse =>
      split
      case isTrue hnil =>
        split
        case isTrue hs => exact hs.trans hnil.symm
        case isFalse => exact hnil.symm
      case isFalse => rfl
  case isFalse heq =>
    have heq := not_not.mp heq
    split
    case isTrue => exact (launchersOrder_updateAll ..).trans heq.symm
    case isFalse => exact heq.symm

theorem setLauncherList_of_perm {list : List String} (hread : list.foldl (readLauncher system all) {} = new)
    (hp : new.launchersOrder.Perm s.launchersOrder) (hne : new.launchersOrder ≠ s.launchersOrder) :
    (s.setLauncherList system all list).activitiesForLauncher = s.activitiesForLauncher := by
  have ho : (new.launchersOrder.all (· ∈ s.launchersOrder) &&
      new.launchersOrder.length = s.launchersOrder.length) = true := by
    rw [Bool.and_eq_true_iff, List.all_eq_true]
    exact ⟨fun url hu => decide_eq_true (hp.subset hu), decide_eq_true hp.length_eq⟩
  rw [LauncherTasksModel.setLauncherList, hread]
  dsimp only
  rw [if_pos hne, if_pos ho]

-- Maps with as many keys, of which one has what the other has, have the same.
theorem lookup_of_sameActivities (h : s.sameActivities new = true)
    (hm : launcher ∈ new.activitiesForLauncher) : ∃ activities newActivities,
      s.activitiesForLauncher.lookup launcher = some activities ∧
        new.activitiesForLauncher.lookup launcher = some newActivities ∧ activities.isSame newActivities = true := by
  obtain ⟨hlength, hentries⟩ := Bool.and_eq_true_iff.mp h
  have hentry : ∀ url activities, s.activitiesForLauncher.lookup url = some activities →
      ∃ newActivities, new.activitiesForLauncher.lookup url = some newActivities ∧
        activities.isSame newActivities = true := by
    intro url activities hl
    have hentry := List.all_eq_true.mp hentries _ (Hash.mem_entries_iff.mpr hl)
    dsimp only at hentry
    split at hentry
    case h_1 newActivities hn => exact ⟨newActivities, hn, hentry⟩
    case h_2 => cases hentry
  have hsub : s.activitiesForLauncher.keys ⊆ new.activitiesForLauncher.keys := by
    intro url hu
    obtain ⟨activities, hl⟩ := Hash.mem_iff.mp (AList.mem_keys.mp hu)
    obtain ⟨newActivities, hn, _⟩ := hentry url activities hl
    exact AList.mem_keys.mpr (Hash.mem_iff.mpr ⟨newActivities, hn⟩)
  have hperm := (List.subperm_of_subset s.activitiesForLauncher.nodupKeys hsub).perm_of_length_le
    (Nat.le_of_eq (of_decide_eq_true hlength).symm)
  obtain ⟨activities, hl⟩ := Hash.mem_iff.mp (AList.mem_keys.mp (hperm.mem_iff.mpr (AList.mem_keys.mpr hm)))
  obtain ⟨newActivities, hn, hsame⟩ := hentry launcher activities hl
  exact ⟨activities, newActivities, hl, hn, hsame⟩

theorem setLauncherList_of_eq (s : LauncherTasksModel QUrl) {list : List String}
    (hread : list.foldl (readLauncher system all) {} = new)
    (hkeys : ∀ url ∈ new.launchersOrder, url ∈ new.activitiesForLauncher)
    (heq : new.launchersOrder = s.launchersOrder) (hm : launcher ∈ s.launchersOrder) (id : String) :
    id ∈ (s.setLauncherList system all list).activitiesAt launcher ↔ id ∈ new.activitiesAt launcher := by
  rw [LauncherTasksModel.setLauncherList, hread]
  dsimp only
  rw [if_neg (not_not.mpr heq)]
  split
  case isTrue => rw [mem_updateAll, if_pos hm]
  case isFalse hsame =>
    have hsame : s.sameActivities new = true := by simpa using hsame
    obtain ⟨activities, newActivities, hl, hn, hsame⟩ := lookup_of_sameActivities hsame (hkeys launcher (heq ▸ hm))
    rw [activitiesAt, activitiesAt, hl, hn]
    exact QSet.isSame_iff.mp hsame id

section

variable (system)

-- The launchers are the same, on the same activities, with those that are shown in the order of their rows.
structure OnlyReorders (rows : List QUrl) (s s' : LauncherTasksModel QUrl) : Prop where
  perm       : s'.launchersOrder.Perm s.launchersOrder
  activities : ∀ launcher ∈ s.launchersOrder, (s.OnAll launcher ↔ s'.OnAll launcher) ∧
    (¬s.OnAll launcher → ∀ id, id ∈ s.activitiesAt launcher ↔ id ∈ s'.activitiesAt launcher)
  shown      : (s'.launchersOrder.filterMap (TasksModel.rowOf system rows)).Pairwise (· ≤ ·)
  hidden     : s'.launchersOrder.filter (TasksModel.rowOf system rows · = none) =
    s.launchersOrder.filter (TasksModel.rowOf system rows · = none)

-- The launchers in the order of their rows, with the hidden ones behind.
def arranged (rows : List QUrl) (s : LauncherTasksModel QUrl) : List QUrl :=
  Buckets.arrange rows.length (TasksModel.rowOf system rows) s.launchersOrder

-- No two launchers have the same row, all of them are valid and on some activity, and the order changes or all the
-- activities of the launchers exist.
structure CanSync (all : Activities) (rows : List QUrl) (s : LauncherTasksModel QUrl) : Prop where
  apart : ∀ a ∈ s.launchersOrder, ∀ b ∈ s.launchersOrder, ∀ i,
    TasksModel.rowOf system rows a = some i → TasksModel.rowOf system rows b = some i → a = b
  valid : ∀ launcher ∈ s.launchersOrder, isValidLauncherUrl system launcher ∧
    (s.OnAll launcher ∨ ∃ id ∈ s.activitiesAt launcher, id ∈ all.ids)
  exist : s.arranged system rows ≠ s.launchersOrder ∨ ∀ launcher ∈ s.launchersOrder,
    s.OnAll launcher ∨ ∀ id ∈ s.activitiesAt launcher, id ∈ all.ids

end

theorem rowOf_lt {rows : List QUrl} {i : Nat} (h : TasksModel.rowOf system rows launcher = some i) : i < rows.length :=
  (List.findIdx?_eq_some_iff_getElem.mp h).1

theorem sortLaunchers_serialized (hl : Lossless system) (hw : s.WellFormed) (rows : List QUrl) :
    let sorted := (launchers.map (s.serializeLauncher system)).foldl (TasksModel.sortLauncher system rows) {}
    (∀ i, sorted.sortedShownLaunchers.lookup i =
        (Buckets.lastOf (TasksModel.rowOf system rows) launchers i).map (s.serializeLauncher system)) ∧
      sorted.sortedHiddenLaunchers =
        (launchers.filter (TasksModel.rowOf system rows · = none)).map (s.serializeLauncher system) := by
  induction launchers using List.reverseRecOn
  case nil => exact ⟨fun _ => rfl, rfl⟩
  case append_singleton launchers launcher ih =>
    have ⟨hshown, hhidden⟩ := ih
    rw [List.map_append, List.foldl_append, List.map_singleton, List.foldl_cons, List.foldl_nil,
      TasksModel.sortLauncher, deserializeLauncher_serializeLauncher hl hw]
    dsimp only
    cases hrow : TasksModel.rowOf system rows launcher
    case none =>
      refine ⟨fun i => ?_, ?_⟩
      · rw [Buckets.lastOf_append, hrow, if_neg nofun]
        exact hshown i
      · have hfilter : [launcher].filter (TasksModel.rowOf system rows · = none) = [launcher] := by simp [hrow]
        rw [List.filter_append, List.map_append, hfilter]
        exact congrArg (· ++ [s.serializeLauncher system launcher]) hhidden
    case some row =>
      refine ⟨fun i => ?_, ?_⟩
      · rw [Buckets.lastOf_append, hrow, Hash.lookup_insert]
        split
        case isTrue heq => rw [heq, if_pos rfl]; rfl
        case isFalse hne =>
          rw [if_neg fun heq => hne (Option.some.inj heq).symm]
          exact hshown i
      · have hfilter : [launcher].filter (TasksModel.rowOf system rows · = none) = [] := by simp [hrow]
        rw [List.filter_append, hfilter, List.append_nil]
        exact hhidden

theorem values_serialized (hl : Lossless system) (hw : s.WellFormed) (rows : List QUrl) :
    ((s.launcherList system).foldl (TasksModel.sortLauncher system rows) {}).values rows.length =
      (s.arranged system rows).map (s.serializeLauncher system) := by
  have ⟨hshown, hhidden⟩ := @sortLaunchers_serialized _ _ _ _ s.launchersOrder hl hw rows
  rw [launcherList, TasksModel.SortedLaunchers.values, hhidden, arranged, Buckets.arrange, List.map_append]
  rw [List.map_filterMap]
  exact congrArg (· ++ _) (List.filterMap_congr fun i _ => hshown i)

-- What is read back when the launchers are synced.
def synced (system : System QUrl) (all : Activities) (rows : List QUrl) (s : LauncherTasksModel QUrl) :
    LauncherTasksModel QUrl :=
  s.setLauncherList system all
    (((s.launcherList system).foldl (TasksModel.sortLauncher system rows) {}).values rows.length)

theorem arranged_subset {rows : List QUrl} : s.arranged system rows ⊆ s.launchersOrder :=
  Buckets.arrange_subset

theorem Consistent.arranged_nodup (h : s.Consistent system) (rows : List QUrl) : (s.arranged system rows).Nodup :=
  Buckets.arrange_nodup h.nodup

theorem Consistent.arranged_pairwise (h : s.Consistent system) (rows : List QUrl) :
    (s.arranged system rows).Pairwise fun a b => ¬launcherUrlsMatch system a b := by
  have hsymm : Std.Symm fun a b => ¬launcherUrlsMatch system a b :=
    ⟨fun a b => by rw [launcherUrlsMatch_iff, launcherUrlsMatch_iff, eq_comm]; exact id⟩
  apply (h.arranged_nodup rows).pairwise_of_forall_ne
  exact fun a ha b hb hne => h.distinct.forall (arranged_subset ha) (arranged_subset hb) hne

theorem synced_spec (hl : Lossless system) (h : s.Consistent system) (hw : s.WellFormed) (rows : List QUrl) :
    ∃ new : LauncherTasksModel QUrl, new.Consistent system ∧
      new.launchersOrder = (s.arranged system rows).filter (s.Kept system all) ∧
      (∀ launcher ∈ new.launchersOrder, new.activitiesForLauncher.lookup launcher = s.readBack all launcher) ∧
      (s.synced system all rows).launchersOrder = new.launchersOrder ∧
      (new.launchersOrder.Perm s.launchersOrder → new.launchersOrder ≠ s.launchersOrder →
        (s.synced system all rows).activitiesForLauncher = s.activitiesForLauncher) ∧
      (new.launchersOrder = s.launchersOrder → ∀ launcher ∈ s.launchersOrder, ∀ id,
        id ∈ (s.synced system all rows).activitiesAt launcher ↔ id ∈ new.activitiesAt launcher) := by
  have hread : ((s.launcherList system).foldl (TasksModel.sortLauncher system rows) {}).values rows.length =
      (s.arranged system rows).map (s.serializeLauncher system) := values_serialized hl hw rows
  have hempty : ({} : LauncherTasksModel QUrl).Consistent system := consistent_empty
  have hnew : (((s.arranged system rows).map (s.serializeLauncher system)).foldl
      (readLauncher system all) {}).Consistent system := hempty.readLaunchers _
  have ⟨horder, hlookup, _⟩ := @readLaunchers_serialized _ _ _ all _ _ _ hl hw hempty (h.arranged_pairwise rows)
  rw [synced, hread]
  refine ⟨_, hnew, horder, fun launcher hm => ?_, setLauncherList_launchersOrder s rfl hnew.nodup, fun hp hne =>
    setLauncherList_of_perm rfl hp hne, fun heq launcher hm =>
      setLauncherList_of_eq s rfl (fun url hu => (hnew.keys url).mpr hu) heq hm⟩
  have hm := List.mem_filter.mp (horder ▸ hm)
  exact hlookup launcher hm.1 hm.2

theorem arranged_perm_iff (h : s.Consistent system) (rows : List QUrl) :
    (s.arranged system rows).Perm s.launchersOrder ↔ ∀ a ∈ s.launchersOrder, ∀ b ∈ s.launchersOrder, ∀ i,
      TasksModel.rowOf system rows a = some i → TasksModel.rowOf system rows b = some i → a = b :=
  Buckets.arrange_perm_iff h.nodup fun _ _ _ hi => rowOf_lt hi

-- The launchers that are kept are all of them only if none is lost among the rows.
theorem perm_of_filter_perm (h : s.Consistent system) {rows : List QUrl}
    (hp : ((s.arranged system rows).filter (s.Kept system all)).Perm s.launchersOrder) :
    (s.arranged system rows).Perm s.launchersOrder ∧ ∀ launcher ∈ s.launchersOrder, s.Kept system all launcher := by
  refine ⟨?_, fun launcher hm => (List.mem_filter.mp (hp.symm.subset hm)).2⟩
  rw [List.perm_ext_iff_of_nodup (h.arranged_nodup rows) h.nodup]
  exact fun launcher => ⟨fun hm => arranged_subset hm, fun hm => (List.mem_filter.mp (hp.symm.subset hm)).1⟩

theorem activitiesAt_readBack {activities : ActivitiesSet} (hl : new.activitiesForLauncher.lookup launcher = some activities) :
    new.activitiesAt launcher = activities := by
  rw [activitiesAt, hl]
  rfl

theorem onAll_singleton (h : ∀ id, id ∈ s.activitiesAt launcher ↔ id = nullUuid) : s.OnAll launcher :=
  isOnAllActivities_iff.mpr (.inr ((h nullUuid).mpr rfl))

theorem onAll_congr {s' : LauncherTasksModel QUrl}
    (h : ∀ id, id ∈ s.activitiesAt launcher ↔ id ∈ s'.activitiesAt launcher) : s.OnAll launcher ↔ s'.OnAll launcher := by
  rw [OnAll, OnAll, isOnAllActivities_iff, isOnAllActivities_iff, QSet.isEmpty_iff, QSet.isEmpty_iff, h]
  simp only [h]

-- The activities that are read back are the same if and only if they all exist.
theorem same_readBack_iff {s' : LauncherTasksModel QUrl} (hk : s.Kept system all launcher)
    (h : ∀ activities, s.readBack all launcher = some activities →
      ∀ id, id ∈ s'.activitiesAt launcher ↔ id ∈ activities) :
    ((s.OnAll launcher ↔ s'.OnAll launcher) ∧
      (¬s.OnAll launcher → ∀ id, id ∈ s.activitiesAt launcher ↔ id ∈ s'.activitiesAt launcher)) ↔
      (s.OnAll launcher ∨ ∀ id ∈ s.activitiesAt launcher, id ∈ all.ids) := by
  by_cases hall : s.OnAll launcher
  case pos =>
    have hall' : s'.OnAll launcher := onAll_singleton fun id => (h _ (readBack_of_onAll hall) id).trans QSet.mem_singleton
    simp [hall, hall']
  case neg =>
    have ⟨_, hsome⟩ := Bool.and_eq_true_iff.mp hk
    have ⟨activities, hr⟩ := Option.isSome_iff_exists.mp hsome
    have hmem : ∀ id, id ∈ s'.activitiesAt launcher ↔ id ∈ s.activitiesAt launcher ∧ id ∈ all.ids := by
      intro id
      rw [h activities hr]
      rw [readBack_of_not_onAll hall] at hr
      have ⟨_, hr⟩ := Option.ite_none_left_eq_some.mp hr
      rw [← Option.some.inj hr, QSet.mem_ofList, List.mem_filter, decide_eq_true_eq]
      rfl
    rw [or_iff_right hall]
    constructor
    case mp => exact fun ⟨_, hsame⟩ id hm => ((hmem id).mp ((hsame hall id).mp hm)).2
    case mpr =>
      intro hexist
      have hsame : ∀ id, id ∈ s.activitiesAt launcher ↔ id ∈ s'.activitiesAt launcher :=
        fun id => (and_iff_left_of_imp (hexist id)).symm.trans (hmem id).symm
      exact ⟨onAll_congr hsame, fun _ => hsame⟩

theorem synced_iff (hl : Lossless system) (h : s.Consistent system) (hw : s.WellFormed) (rows : List QUrl) :
    OnlyReorders system rows s (s.synced system all rows) ↔ s.CanSync system all rows := by
  have ⟨new, hnew, horder, hread, hsynced, hperm, heq⟩ := @synced_spec _ _ _ all _ hl h hw rows
  have hall : (∀ launcher ∈ s.launchersOrder, s.Kept system all launcher) →
      new.launchersOrder = s.arranged system rows := fun hkept =>
    horder.trans (List.filter_eq_self.mpr fun launcher hm => hkept launcher (arranged_subset hm))
  have hsame : new.launchersOrder = s.launchersOrder → ∀ launcher ∈ s.launchersOrder, ∀ activities,
      s.readBack all launcher = some activities →
      ∀ id, id ∈ (s.synced system all rows).activitiesAt launcher ↔ id ∈ activities := by
    intro hnewOrder launcher hm activities hr id
    rw [heq hnewOrder launcher hm id, activitiesAt_readBack ((hread launcher (hnewOrder ▸ hm)).trans hr)]
  constructor
  case mp =>
    intro ho
    have ⟨harranged, hkept⟩ := perm_of_filter_perm h (horder ▸ hsynced ▸ ho.perm)
    refine ⟨(arranged_perm_iff h rows).mp harranged, fun launcher hm => kept_iff.mp (hkept launcher hm), ?_⟩
    by_cases hne : s.arranged system rows = s.launchersOrder
    case pos =>
      refine .inr fun launcher hm => ?_
      have hsame := hsame ((hall hkept).trans hne) launcher hm
      exact (same_readBack_iff (hkept launcher hm) hsame).mp (ho.activities launcher hm)
    case neg => exact .inl hne
  case mpr =>
    intro hc
    have hkept : ∀ launcher ∈ s.launchersOrder, s.Kept system all launcher :=
      fun launcher hm => kept_iff.mpr (hc.valid launcher hm)
    have harranged := (arranged_perm_iff h rows).mpr hc.apart
    have horder : (s.synced system all rows).launchersOrder = s.arranged system rows := hsynced.trans (hall hkept)
    constructor
    case perm => exact horder ▸ harranged
    case activities =>
      intro launcher hm
      by_cases hne : s.arranged system rows = s.launchersOrder
      case pos =>
        have hsame := hsame ((hall hkept).trans hne) launcher hm
        exact (same_readBack_iff (hkept launcher hm) hsame).mpr
          ((hc.exist.resolve_left (not_not.mpr hne)) launcher hm)
      case neg =>
        have hacts := hperm (hall hkept ▸ harranged) (hall hkept ▸ hne)
        have hat : ∀ id, id ∈ s.activitiesAt launcher ↔ id ∈ (s.synced system all rows).activitiesAt launcher :=
          fun id => by rw [activitiesAt, activitiesAt, hacts]
        exact ⟨onAll_congr hat, fun _ => hat⟩
    case shown =>
      rw [horder]
      exact Buckets.arrange_sorted.imp Nat.le_of_lt
    case hidden =>
      rw [horder]
      exact Buckets.filter_arrange

end LauncherTasksModel

namespace TasksModel

variable {QUrl : Type} [DecidableEq QUrl] {system : System QUrl} {all : Activities} {s : TasksModel QUrl}
variable {launchers : LauncherTasksModel QUrl}

open LauncherTasksModel (OnlyReorders CanSync Consistent WellFormed synced_iff)

-- Without a move of a launcher since the last time, nothing is written back.
theorem syncLaunchers_reorders_iff (hl : Lossless system) (hs : s.launcherTasksModel = some launchers)
    (hc : launchers.Consistent system) (hw : launchers.WellFormed) :
    (∃ launchers', (s.syncLaunchers system all).launcherTasksModel = some launchers' ∧
      OnlyReorders system s.rows launchers launchers') ↔
      if s.launcherSortingDirty then
        launchers.CanSync system all s.rows
      else
        (launchers.launchersOrder.filterMap (rowOf system s.rows)).Pairwise (· ≤ ·) := by
  cases hd : s.launcherSortingDirty
  case true =>
    have hsync : (s.syncLaunchers system all).launcherTasksModel = some (launchers.synced system all s.rows) := by
      rw [syncLaunchers, hs, hd]
      rfl
    rw [hsync, if_pos rfl, ← synced_iff hl hc hw]
    exact ⟨fun ⟨_, heq, h⟩ => Option.some.inj heq ▸ h, fun h => ⟨_, rfl, h⟩⟩
  case false =>
    have hsync : (s.syncLaunchers system all).launcherTasksModel = some launchers := by
      rw [syncLaunchers, hs, hd]
      exact hs
    rw [hsync, if_neg Bool.false_ne_true]
    constructor
    case mp => exact fun ⟨_, heq, h⟩ => Option.some.inj heq ▸ h.shown
    case mpr => exact fun h => ⟨_, rfl, .refl _, fun _ _ => ⟨.rfl, fun _ _ => .rfl⟩, h, rfl⟩

inductive Link
  | browser
  | firefox
  | konsole
deriving DecidableEq

-- Firefox is the preferred browser.
def linkSystem : System Link where
  url text :=
    if text = "preferred://browser" then .browser
    else if text = "applications:firefox.desktop" then .firefox
    else .konsole
  toString
    | .browser => "preferred://browser"
    | .firefox => "applications:firefox.desktop"
    | .konsole => "applications:org.kde.konsole.desktop"
  isEmpty _ := false
  isValid _ := true
  isLocalFile _ := false
  scheme
    | .browser => "preferred"
    | .firefox | .konsole => "applications"
  removeQuery := id
  menuId _ := ""
  defaultApplication _ := "firefox.desktop"
  appUrl
    | .browser | .firefox => .firefox
    | .konsole => .konsole

theorem linkSystem_lossless : Lossless linkSystem where
  url url := by cases url <;> decide
  noBracket url := by cases url <;> decide

def pin (launchers : List Link) : LauncherTasksModel Link :=
  launchers.foldl (fun s url => (s.requestAddLauncher linkSystem LauncherTasksModel.twoActivities url).2) {}

def moved (launchers : List Link) (rows : List Link) : TasksModel Link where
  launcherTasksModel := some (pin launchers)
  launcherSortingDirty := true
  rows

theorem pin_consistent : (pin [.firefox, .konsole]).Consistent linkSystem := by
  apply Consistent.requestAddLauncherToActivities _ (List.cons_ne_nil _ _)
  exact LauncherTasksModel.consistent_empty.requestAddLauncherToActivities (List.cons_ne_nil _ _)

theorem pin_wellFormed : (pin [.firefox, .konsole]).WellFormed := by
  have hnull : WellFormedId nullUuid := ⟨by decide, by decide, by decide⟩
  have hall : ∀ launcher, ∀ id ∈ ((pin [.firefox, .konsole]).activitiesAt launcher).values, id = nullUuid := by
    intro launcher
    cases launcher <;> decide
  exact fun launcher id hm => hall launcher id hm ▸ hnull

-- The launcher of the second row is moved before the one of the first.
theorem syncLaunchers_reorders_moved :
    ∃ launchers', ((moved [.firefox, .konsole] [.konsole, .firefox]).syncLaunchers linkSystem
        LauncherTasksModel.twoActivities).launcherTasksModel = some launchers' ∧
      OnlyReorders linkSystem [.konsole, .firefox] (pin [.firefox, .konsole]) launchers' := by
  have hkept : ∀ launcher ∈ (pin [.firefox, .konsole]).launchersOrder,
      (pin [.firefox, .konsole]).Kept linkSystem LauncherTasksModel.twoActivities launcher := by
    decide
  apply (syncLaunchers_reorders_iff linkSystem_lossless rfl pin_consistent pin_wellFormed).mpr
  exact {
    apart := (LauncherTasksModel.arranged_perm_iff pin_consistent [.konsole, .firefox]).mp (by decide)
    valid := fun launcher hm => LauncherTasksModel.kept_iff.mp (hkept launcher hm)
    exist := .inl (by decide) }

-- Both launchers have the row of the browser, and only the second one is left.
theorem syncLaunchers_reorders_preferred :
    ¬∃ launchers', ((moved [.browser, .firefox] [.firefox]).syncLaunchers linkSystem
        LauncherTasksModel.twoActivities).launcherTasksModel = some launchers' ∧
      OnlyReorders linkSystem [.firefox] (pin [.browser, .firefox]) launchers' := by
  intro ⟨launchers', hs, h⟩
  have horder : ((moved [.browser, .firefox] [.firefox]).syncLaunchers linkSystem
      LauncherTasksModel.twoActivities).launcherTasksModel.map (·.launchersOrder) = some [.firefox] := by
    decide
  have horder : launchers'.launchersOrder = [.firefox] := by
    rw [hs] at horder
    exact Option.some.inj horder
  have hlength : ([.firefox] : List Link).length = (pin [.browser, .firefox]).launchersOrder.length :=
    horder ▸ h.perm.length_eq
  exact absurd hlength (by decide)

end TasksModel
end TaskManager
