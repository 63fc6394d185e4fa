import PlasmaModel.TaskManager.Theorems.SyncLaunchers

namespace TaskManager

section

variable {α β : Type} [DecidableEq β] {k : α → β} {l : List α} {a : α} {x : β}

-- The first element of each key.
def firstOccurrences (k : α → β) : List α → List α
  | [] => []
  | a :: l => a :: (firstOccurrences k l).filter (k · ≠ k a)

theorem exists_mem_firstOccurrences : (∃ a ∈ firstOccurrences k l, k a = x) ↔ ∃ a ∈ l, k a = x := by
  induction l with
  | nil => exact Iff.rfl
  | cons b l ih =>
    by_cases hb : k b = x
    case pos => exact iff_of_true ⟨b, List.mem_cons_self, hb⟩ ⟨b, List.mem_cons_self, hb⟩
    case neg =>
      have hne : ∀ a, k a = x → k a ≠ k b := fun a ha heq => hb (heq.symm.trans ha)
      simp only [firstOccurrences, List.mem_cons, List.mem_filter, decide_eq_true_eq, or_and_right, exists_or,
        exists_eq_left, hb, false_or]
      rw [← ih]
      exact exists_congr fun a => ⟨fun ⟨⟨hm, _⟩, ha⟩ => ⟨hm, ha⟩, fun ⟨hm, ha⟩ => ⟨⟨hm, hne a ha⟩, ha⟩⟩

theorem firstOccurrences_inj {b : α} (ha : a ∈ firstOccurrences k l) (hb : b ∈ firstOccurrences k l) (h : k a = k b) :
    a = b := by
  induction l with
  | nil => exact absurd ha List.not_mem_nil
  | cons c l ih =>
    simp only [firstOccurrences, List.mem_cons, List.mem_filter, decide_eq_true_eq] at ha hb
    rcases ha with rfl | ⟨ha, hac⟩ <;> rcases hb with rfl | ⟨hb, hbc⟩
    · rfl
    · exact absurd h.symm hbc
    · exact absurd h hac
    · exact ih ha hb

theorem firstOccurrences_append (l : List α) (a : α) : firstOccurrences k (l ++ [a]) =
    firstOccurrences k l ++ if ∃ b ∈ firstOccurrences k l, k b = k a then [] else [a] := by
  simp only [exists_mem_firstOccurrences]
  induction l with
  | nil => simp [firstOccurrences]
  | cons b l ih =>
    rw [List.cons_append, firstOccurrences, ih, List.filter_append, firstOccurrences, List.cons_append]
    by_cases hb : k b = k a
    case pos => by_cases hl : ∃ b ∈ l, k b = k a <;> simp [hb, hl]
    case neg =>
      have hba : k a ≠ k b := fun heq => hb heq.symm
      by_cases hl : ∃ b ∈ l, k b = k a <;> simp [hb, hba, hl]

end

namespace LauncherTasksModel

variable {QUrl : Type} [DecidableEq QUrl] (system : System QUrl) (all : Activities)

-- What a launcher in a list says, if it is of use.
def readEntry (serializedLauncher : String) : Option (QUrl × ActivitiesSet) :=
  let (url, activities) := deserializeLauncher system serializedLauncher
  if isValidLauncherUrl system url then (readActivities all activities).map (url, ·) else none

def addEntry (s : LauncherTasksModel QUrl) (entry : QUrl × ActivitiesSet) : LauncherTasksModel QUrl :=
  match s.launchersOrder.find? fun item => launcherUrlsMatch system entry.1 item with
  | some item => s.addActivities item entry.2
  | none => { s with launchersOrder := s.launchersOrder ++ [entry.1] }.addActivities entry.1 entry.2

-- Some entry for the launcher has the activity.
def Has (entries : List (QUrl × ActivitiesSet)) (launcher : QUrl) (id : String) : Prop :=
  ∃ entry ∈ entries, canonicalUrl system entry.1 = canonicalUrl system launcher ∧ id ∈ entry.2

-- The activities of all the entries for a launcher, unless one of them is on all activities.
def Merged (entries : List (QUrl × ActivitiesSet)) (launcher : QUrl) (id : String) : Prop :=
  Has system entries launcher id ∧ (Has system entries launcher nullUuid → id = nullUuid)

-- The launchers are the first occurrences of the URLs, with their activities merged.
structure Reads (serializedLaunchers : List String) (s : LauncherTasksModel QUrl) : Prop where
  order      : s.launchersOrder =
    firstOccurrences (canonicalUrl system) ((serializedLaunchers.filterMap (readEntry system all)).map (·.1))
  activities : ∀ launcher ∈ s.launchersOrder, ∀ id, id ∈ s.activitiesAt launcher ↔
    Merged system (serializedLaunchers.filterMap (readEntry system all)) launcher id

variable {system all} {s new : LauncherTasksModel QUrl} {launcher url : QUrl} {list : List String}
variable {entries : List (QUrl × ActivitiesSet)} {entry : QUrl × ActivitiesSet}

theorem readLauncher_eq (s : LauncherTasksModel QUrl) (serializedLauncher : String) :
    s.readLauncher system all serializedLauncher =
      ((readEntry system all serializedLauncher).map (s.addEntry system)).getD s := by
  rw [readLauncher, readEntry]
  dsimp only
  cases isValidLauncherUrl system (deserializeLauncher system serializedLauncher).1 with
  | false => rfl
  | true =>
    cases readActivities all (deserializeLauncher system serializedLauncher).2 with
    | none => rfl
    | some activities => rfl

theorem readLaunchers_eq (list : List String) (s : LauncherTasksModel QUrl) : list.foldl (readLauncher system all) s =
    (list.filterMap (readEntry system all)).foldl (addEntry system) s := by
  rw [List.foldl_filterMap]
  refine congrArg (fun f => list.foldl f s) (funext fun s => funext fun serializedLauncher => ?_)
  rw [readLauncher_eq]
  cases readEntry system all serializedLauncher <;> rfl

omit [DecidableEq QUrl] in
theorem eq_null_of_readEntry {serializedLauncher : String} (h : readEntry system all serializedLauncher = some entry)
    (hnull : nullUuid ∈ entry.2) {id : String} (hid : id ∈ entry.2) : id = nullUuid := by
  rw [readEntry] at h
  generalize deserializeLauncher system serializedLauncher = read at h
  obtain ⟨_, h⟩ := Option.ite_none_right_eq_some.mp h
  obtain ⟨activities, hr, heq⟩ := Option.map_eq_some_iff.mp h
  rw [← heq] at hnull hid
  rw [readActivities] at hr
  split at hr
  case isTrue =>
    cases hr
    exact QSet.mem_singleton.mp hid
  case isFalse =>
    obtain ⟨_, hr⟩ := Option.ite_none_left_eq_some.mp hr
    cases hr
    obtain ⟨_, hm⟩ := List.mem_filter.mp (QSet.mem_ofList.mp hnull)
    exact absurd (of_decide_eq_true hm) all.notNull

omit [DecidableEq QUrl] in
theorem has_append {id : String} : Has system (entries ++ [entry]) launcher id ↔ Has system entries launcher id ∨
    canonicalUrl system entry.1 = canonicalUrl system launcher ∧ id ∈ entry.2 := by
  simp only [Has, List.mem_append, List.mem_singleton, or_and_right, exists_or, exists_eq_left]

omit [DecidableEq QUrl] in
theorem merged_append_of_ne (h : canonicalUrl system entry.1 ≠ canonicalUrl system launcher) {id : String} :
    Merged system (entries ++ [entry]) launcher id ↔ Merged system entries launcher id := by
  simp only [Merged, has_append, h, false_and, or_false]

-- The launchers of the entries that have been read.
structure Collects (system : System QUrl) (entries : List (QUrl × ActivitiesSet)) (s : LauncherTasksModel QUrl) :
    Prop where
  order      : s.launchersOrder = firstOccurrences (canonicalUrl system) (entries.map (·.1))
  keys       : ∀ url, url ∈ s.activitiesForLauncher ↔ url ∈ s.launchersOrder
  activities : ∀ launcher ∈ s.launchersOrder, ∀ id, id ∈ s.activitiesAt launcher ↔ Merged system entries launcher id

namespace Collects

theorem empty : ({} : LauncherTasksModel QUrl).Collects system [] where
  order := rfl
  keys _ := iff_of_false (AList.notMem_empty _) List.not_mem_nil
  activities _ hm := absurd hm List.not_mem_nil

theorem has_imp (h : s.Collects system entries) {id : String} (hh : Has system entries launcher id) :
    ∃ other ∈ s.launchersOrder, canonicalUrl system other = canonicalUrl system launcher := by
  have ⟨entry, hm, heq, _⟩ := hh
  rw [h.order]
  exact exists_mem_firstOccurrences.mpr ⟨entry.1, List.mem_map_of_mem hm, heq⟩

theorem addNew (h : s.Collects system entries)
    (hn : ∀ other ∈ s.launchersOrder, canonicalUrl system other ≠ canonicalUrl system entry.1)
    (hnull : nullUuid ∈ entry.2 → ∀ id ∈ entry.2, id = nullUuid) :
    ({ s with launchersOrder := s.launchersOrder ++ [entry.1] }.addActivities entry.1 entry.2).Collects system
      (entries ++ [entry]) := by
  have hkey : entry.1 ∉ s.activitiesForLauncher := fun hk => hn _ ((h.keys _).mp hk) rfl
  have hnone : ¬∃ b ∈ firstOccurrences (canonicalUrl system) (entries.map (·.1)),
      canonicalUrl system b = canonicalUrl system entry.1 := by
    rw [← h.order]
    rintro ⟨b, hb, heq⟩
    exact hn b hb heq
  rw [addActivities, Hash.notMem_iff.mp hkey]
  constructor
  case order => rw [List.map_append, List.map_singleton, firstOccurrences_append, if_neg hnone, h.order]
  case keys =>
    intro url
    rw [AList.mem_insert, h.keys, List.mem_append, List.mem_singleton, or_comm]
  case activities =>
    intro launcher hm id
    rw [activitiesAt, Hash.lookup_insert]
    rcases List.mem_append.mp hm with hm | hm
    · have hne : launcher ≠ entry.1 := fun heq => hn launcher hm (by rw [heq])
      rw [if_neg hne, merged_append_of_ne fun heq => hn launcher hm heq.symm]
      exact h.activities launcher hm id
    · have heq := List.mem_singleton.mp hm
      have hhas : ∀ id, ¬Has system entries launcher id := fun id hh => by
        obtain ⟨other, ho, heq'⟩ := h.has_imp hh
        exact hn other ho (heq'.trans (by rw [heq]))
      rw [if_pos heq, Merged, has_append, has_append, heq, Option.getD_some]
      rw [heq] at hhas
      simp only [hhas, false_or, true_and]
      exact ⟨fun hid => ⟨hid, fun hn => hnull hn id hid⟩, And.left⟩

theorem addMatching (h : s.Collects system entries) (hm : launcher ∈ s.launchersOrder)
    (heq : canonicalUrl system entry.1 = canonicalUrl system launcher) :
    (s.addActivities launcher entry.2).Collects system (entries ++ [entry]) := by
  have ⟨current, hl⟩ := Hash.mem_iff.mp ((h.keys launcher).mpr hm)
  have hcurrent : ∀ id, id ∈ current ↔ Merged system entries launcher id := fun id => by
    rw [← h.activities launcher hm, activitiesAt, hl, Option.getD_some]
  have hone : ∀ other ∈ s.launchersOrder, canonicalUrl system other = canonicalUrl system launcher →
      other = launcher := by
    rw [h.order] at hm ⊢
    exact fun other ho => firstOccurrences_inj ho hm
  have horder : s.launchersOrder = firstOccurrences (canonicalUrl system) ((entries ++ [entry]).map (·.1)) := by
    rw [List.map_append, List.map_singleton, firstOccurrences_append, if_pos ⟨launcher, h.order ▸ hm, heq.symm⟩,
      List.append_nil, h.order]
  -- Whatever is stored for this launcher, nothing else changes.
  have hstore : ∀ activities : ActivitiesSet, (∀ id, id ∈ activities ↔ Merged system (entries ++ [entry]) launcher id) →
      ({ s with activitiesForLauncher := s.activitiesForLauncher.insert launcher activities } :
        LauncherTasksModel QUrl).Collects system (entries ++ [entry]) := by
    intro activities ha
    refine ⟨horder, fun url => ?_, fun other ho id => ?_⟩
    · rw [AList.mem_insert, h.keys]
      exact or_iff_right_of_imp fun hu => hu ▸ hm
    · rw [activitiesAt, Hash.lookup_insert]
      split
      case isTrue ho => rw [ho, Option.getD_some, ha]
      case isFalse hne =>
        rw [merged_append_of_ne fun hc => hne (hone other ho (hc.symm.trans heq))]
        exact h.activities other ho id
  simp only [Merged, has_append, heq, true_and] at hcurrent hstore
  rw [addActivities, hl]
  dsimp only
  split
  case isTrue hn =>
    refine ⟨horder, h.keys, fun other ho id => ?_⟩
    by_cases hol : other = launcher
    case pos =>
      rw [hol, activitiesAt, hl, Option.getD_some, hcurrent, Merged, has_append, has_append]
      have hn := ((hcurrent _).mp hn).1
      simp only [heq, true_and, hn, true_or, forall_const]
      exact ⟨fun hi => ⟨.inl hi.1, hi.2⟩, fun hi => ⟨hi.2 ▸ hn, hi.2⟩⟩
    case neg =>
      rw [merged_append_of_ne fun hc => hol (hone other ho (hc.symm.trans heq))]
      exact h.activities other ho id
  case isFalse hn =>
    have hn : ¬Has system entries launcher nullUuid := fun hh => hn ((hcurrent _).mpr ⟨hh, fun _ => rfl⟩)
    split
    case isTrue he =>
      refine hstore _ fun id => ?_
      rw [QSet.mem_singleton]
      exact ⟨fun hid => ⟨.inr (hid ▸ he), fun _ => hid⟩, fun hid => hid.2 (.inr he)⟩
    case isFalse he =>
      refine hstore _ fun id => ?_
      rw [QSet.mem_union, hcurrent]
      simp only [hn, he, false_or, false_imp_iff, and_true]

end Collects

theorem collects_foldl (hnull : ∀ entry ∈ entries, nullUuid ∈ entry.2 → ∀ id ∈ entry.2, id = nullUuid) :
    (entries.foldl (addEntry system) {}).Collects system entries := by
  induction entries using List.reverseRecOn with
  | nil => exact .empty
  | append_singleton entries entry ih =>
    have h := ih fun entry hm => hnull entry (List.mem_append_left _ hm)
    have hnull := hnull entry (List.mem_append_right _ (List.mem_singleton_self _))
    rw [List.foldl_append, List.foldl_cons, List.foldl_nil, addEntry]
    split
    case h_1 item hf =>
      exact h.addMatching (List.mem_of_find?_eq_some hf) (launcherUrlsMatch_iff.mp (List.find?_some hf))
    case h_2 hf =>
      refine h.addNew (fun other ho heq => List.find?_eq_none.mp hf other ho ?_) hnull
      exact launcherUrlsMatch_iff.mpr heq.symm

theorem collects_read (list : List String) :
    (list.foldl (readLauncher system all) {}).Collects system (list.filterMap (readEntry system all)) := by
  rw [readLaunchers_eq]
  refine collects_foldl fun entry hm hnull id hid => ?_
  have ⟨_, _, h⟩ := List.mem_filterMap.mp hm
  exact eq_null_of_readEntry h hnull hid

-- The launchers of the list are not those of the model in another order, or they have their activities already.
def Settles (system : System QUrl) (all : Activities) (s : LauncherTasksModel QUrl) (list : List String) : Prop :=
  let entries := list.filterMap (readEntry system all)
  let order := firstOccurrences (canonicalUrl system) (entries.map (·.1))
  order ≠ s.launchersOrder → order.Perm s.launchersOrder →
    ∀ launcher ∈ s.launchersOrder, ∀ id, id ∈ s.activitiesAt launcher ↔ Merged system entries launcher id

theorem setLauncherList_of_not_perm {list : List String} (hread : list.foldl (readLauncher system all) {} = new)
    (hn : new.launchersOrder.Nodup) (hne : new.launchersOrder ≠ s.launchersOrder)
    (hp : ¬new.launchersOrder.Perm s.launchersOrder) (hm : launcher ∈ new.launchersOrder) :
    s.setLauncherList system all list = new := by
  rw [LauncherTasksModel.setLauncherList, hread]
  dsimp only
  rw [if_pos hne, if_neg fun ho => hp (perm_of_isOrderChanged hn ho), if_neg (List.ne_nil_of_mem hm)]

theorem setLauncherList_reads_iff (s : LauncherTasksModel QUrl) (list : List String) :
    (s.setLauncherList system all list).Reads system all list ↔ s.Settles system all list := by
  have h : (list.foldl (readLauncher system all) {}).Collects system (list.filterMap (readEntry system all)) :=
    collects_read list
  have hn : (list.foldl (readLauncher system all) {}).Consistent system := consistent_empty.readLaunchers list
  have horder := setLauncherList_launchersOrder s rfl hn.nodup
  simp only [Settles, ← h.order]
  constructor
  case mp =>
    intro hr hne hp launcher hm id
    have hacts := setLauncherList_of_perm rfl hp hne
    rw [← hr.activities launcher (horder ▸ hp.mem_iff.mpr hm) id, activitiesAt, activitiesAt, hacts]
  case mpr =>
    refine fun hs => ⟨horder.trans h.order, fun launcher hm id => ?_⟩
    rw [horder] at hm
    by_cases heq : (list.foldl (readLauncher system all) {}).launchersOrder = s.launchersOrder
    case pos =>
      rw [setLauncherList_of_eq s rfl (fun url hu => (h.keys url).mpr hu) heq (heq ▸ hm), h.activities launcher hm]
    case neg =>
      by_cases hp : (list.foldl (readLauncher system all) {}).launchersOrder.Perm s.launchersOrder
      case pos =>
        rw [← hs heq hp launcher (hp.mem_iff.mp hm), activitiesAt, activitiesAt, setLauncherList_of_perm rfl hp heq]
      case neg => rw [setLauncherList_of_not_perm rfl hn.nodup heq hp hm, h.activities launcher hm]

-- Launchers that a list can say: they are on all activities, or on some that exist.
def Known (system : System QUrl) (all : Activities) (t : LauncherTasksModel QUrl) (launcher : QUrl) : Prop :=
  isValidLauncherUrl system launcher = true ∧
    ((∀ id, id ∈ t.activitiesAt launcher ↔ id = nullUuid) ∨ ∀ id ∈ t.activitiesAt launcher, id ∈ all.ids)

structure Copies (s t : LauncherTasksModel QUrl) : Prop where
  order      : s.launchersOrder = t.launchersOrder
  activities : ∀ launcher ∈ t.launchersOrder, ∀ id, id ∈ s.activitiesAt launcher ↔ id ∈ t.activitiesAt launcher

variable {t : LauncherTasksModel QUrl}

theorem Known.readBack (hk : t.Known system all launcher) (hn : ¬(t.activitiesAt launcher).isEmpty) :
    ∃ activities, t.readBack all launcher = some activities ∧ ∀ id, id ∈ activities ↔ id ∈ t.activitiesAt launcher := by
  by_cases ho : t.OnAll launcher
  case pos =>
    refine ⟨_, readBack_of_onAll ho, fun id => ?_⟩
    have hnull : nullUuid ∈ t.activitiesAt launcher := (isOnAllActivities_iff.mp ho).resolve_left hn
    rcases hk.2 with hall | hall
    · rw [QSet.mem_singleton, hall]
    · exact absurd (hall _ hnull) all.notNull
  case neg =>
    have hall : ∀ id ∈ t.activitiesAt launcher, id ∈ all.ids := hk.2.resolve_left fun hall =>
      ho (isOnAllActivities_iff.mpr (.inr ((hall _).mpr rfl)))
    have hmem : ∀ id, id ∈ QSet.ofList ((t.activitiesAt launcher).values.filter (· ∈ all.ids)) ↔
        id ∈ t.activitiesAt launcher := fun id => by
      rw [QSet.mem_ofList, List.mem_filter]
      exact ⟨And.left, fun hm => ⟨hm, decide_eq_true (hall id hm)⟩⟩
    refine ⟨_, (readBack_of_not_onAll ho).trans (if_neg fun he => hn ?_), hmem⟩
    rw [QSet.isEmpty_iff] at he ⊢
    exact fun id hm => he id ((hmem id).mpr hm)

-- A model's own list is read as its launchers.
theorem copies_read (hl : Lossless system) (ht : t.Consistent system) (hw : t.WellFormed)
    (hk : ∀ launcher ∈ t.launchersOrder, t.Known system all launcher) :
    ((t.launcherList system).foldl (readLauncher system all) {}).Copies t := by
  have hback : ∀ launcher ∈ t.launchersOrder, ∃ activities, t.readBack all launcher = some activities ∧
      ∀ id, id ∈ activities ↔ id ∈ t.activitiesAt launcher := fun launcher hm => by
    obtain ⟨activities, hlookup, hne⟩ := ht.lookup hm
    refine (hk launcher hm).readBack ?_
    rwa [activitiesAt, hlookup]
  have hkept : ∀ launcher ∈ t.launchersOrder, t.Kept system all launcher = true := fun launcher hm => by
    obtain ⟨activities, hr, _⟩ := hback launcher hm
    rw [Kept, hr, (hk launcher hm).1]
    rfl
  have hempty : ({} : LauncherTasksModel QUrl).Consistent system := consistent_empty
  have hread := @readLaunchers_serialized _ _ _ all _ _ t.launchersOrder hl hw hempty ht.distinct
  obtain ⟨horder, hlookup, _⟩ := hread
  refine ⟨?_, fun launcher hm id => ?_⟩
  · exact horder.trans (List.filter_eq_self.mpr hkept)
  · obtain ⟨activities, hr, hsame⟩ := hback launcher hm
    rw [← hsame, activitiesAt, launcherList, hlookup launcher hm (hkept launcher hm), hr, Option.getD_some]

-- The list of another model is copied, unless its launchers are those of the model in another order.
theorem setLauncherList_copies_iff (hl : Lossless system) (ht : t.Consistent system) (hw : t.WellFormed)
    (hk : ∀ launcher ∈ t.launchersOrder, t.Known system all launcher) (s : LauncherTasksModel QUrl) :
    (s.setLauncherList system all (t.launcherList system)).Copies t ↔
      (t.launchersOrder ≠ s.launchersOrder → t.launchersOrder.Perm s.launchersOrder →
        ∀ launcher ∈ t.launchersOrder, ∀ id, id ∈ s.activitiesAt launcher ↔ id ∈ t.activitiesAt launcher) := by
  have h := copies_read hl ht hw hk
  have hc := @collects_read _ _ system all (t.launcherList system)
  have hmerged : ∀ launcher ∈ t.launchersOrder, ∀ id, Merged system
      ((t.launcherList system).filterMap (readEntry system all)) launcher id ↔ id ∈ t.activitiesAt launcher :=
    fun launcher hm id => by rw [← h.activities launcher hm, hc.activities launcher (h.order ▸ hm)]
  have horder := hc.order.symm.trans h.order
  have hreads : (s.setLauncherList system all (t.launcherList system)).Copies t ↔
      (s.setLauncherList system all (t.launcherList system)).Reads system all (t.launcherList system) := by
    refine ⟨fun hs => ⟨hs.order.trans horder.symm, fun launcher hm id => ?_⟩, fun hs => ?_⟩
    · rw [hmerged launcher (hs.order ▸ hm), hs.activities launcher (hs.order ▸ hm)]
    · have hso := hs.order.trans horder
      refine ⟨hso, fun launcher hm id => ?_⟩
      rw [hs.activities launcher (hso ▸ hm), hmerged launcher hm]
  rw [hreads, setLauncherList_reads_iff]
  simp only [Settles, horder]
  refine forall₂_congr fun _ hp => ⟨fun hs launcher hm id => ?_, fun hs launcher hm id => ?_⟩
  · rw [hs launcher (hp.mem_iff.mp hm), hmerged launcher hm]
  · rw [hs launcher (hp.mem_iff.mpr hm), hmerged launcher (hp.mem_iff.mpr hm)]

theorem setLauncherList_launcherList (hl : Lossless system) (ht : t.Consistent system) (hw : t.WellFormed)
    (hk : ∀ launcher ∈ t.launchersOrder, t.Known system all launcher) :
    t.setLauncherList system all (t.launcherList system) = t := by
  have h := copies_read hl ht hw hk
  have hn : ((t.launcherList system).foldl (readLauncher system all) {}).Consistent system :=
    consistent_empty.readLaunchers _
  have hkeys : t.activitiesForLauncher.keys.Perm
      ((t.launcherList system).foldl (readLauncher system all) {}).activitiesForLauncher.keys := by
    refine (List.perm_ext_iff_of_nodup t.activitiesForLauncher.nodupKeys (AList.nodupKeys _)).mpr fun url => ?_
    exact (ht.keys url).trans ((hn.keys url).trans (by rw [h.order])).symm
  have hsame : t.sameActivities ((t.launcherList system).foldl (readLauncher system all) {}) = true := by
    refine Bool.and_eq_true_iff.mpr ⟨decide_eq_true hkeys.length_eq, List.all_eq_true.mpr fun entry he => ?_⟩
    have hl : t.activitiesForLauncher.lookup entry.1 = some entry.2 := Hash.mem_entries_iff.mp he
    have hm : entry.1 ∈ t.launchersOrder := (ht.keys _).mp (Hash.mem_iff.mpr ⟨_, hl⟩)
    have ⟨activities, hlookup, _⟩ := hn.lookup (h.order ▸ hm)
    have hacts := h.activities entry.1 hm
    rw [activitiesAt, activitiesAt, hlookup, hl] at hacts
    rw [hlookup]
    exact QSet.isSame_iff.mpr fun id => (hacts id).symm
  rw [LauncherTasksModel.setLauncherList]
  dsimp only
  rw [if_neg (not_not.mpr h.order), hsame, if_neg (by simp)]

-- The setter forgets what was before, but for the activities of launchers that only change their order.
theorem setLauncherList_iff (s : LauncherTasksModel QUrl) :
    (∀ list, (s.setLauncherList system all list).Reads system all list ↔ s.Settles system all list) ∧
    (∀ list, (s.setLauncherList system all list).launchersOrder =
      firstOccurrences (canonicalUrl system) ((list.filterMap (readEntry system all)).map (·.1))) ∧
    ∀ t : LauncherTasksModel QUrl, Lossless system → t.Consistent system → t.WellFormed →
      (∀ launcher ∈ t.launchersOrder, t.Known system all launcher) →
        t.setLauncherList system all (t.launcherList system) = t ∧
        ((s.setLauncherList system all (t.launcherList system)).Copies t ↔
          (t.launchersOrder ≠ s.launchersOrder → t.launchersOrder.Perm s.launchersOrder →
            ∀ launcher ∈ t.launchersOrder, ∀ id, id ∈ s.activitiesAt launcher ↔ id ∈ t.activitiesAt launcher)) := by
  refine ⟨setLauncherList_reads_iff s, fun list => ?_, fun t hl ht hw hk => ?_⟩
  · have hn : (list.foldl (readLauncher system all) {}).Consistent system := consistent_empty.readLaunchers list
    exact (setLauncherList_launchersOrder s rfl hn.nodup).trans (collects_read list).order
  · exact ⟨setLauncherList_launcherList hl ht hw hk, setLauncherList_copies_iff hl ht hw hk s⟩

section

open TasksModel

theorem setLauncherList_pinned : (pin [.firefox, .konsole]).setLauncherList linkSystem twoActivities
    ((pin [.firefox, .konsole]).launcherList linkSystem) = pin [.firefox, .konsole] := by
  refine ((setLauncherList_iff {}).2.2 _ linkSystem_lossless pin_consistent pin_wellFormed fun launcher hm => ?_).1
  have hnull : ∀ launcher ∈ (pin [.firefox, .konsole]).launchersOrder,
      ((pin [.firefox, .konsole]).activitiesAt launcher).values = [nullUuid] := by
    decide
  refine ⟨by cases launcher <;> decide, .inl fun id => ?_⟩
  rw [← QSet.mem_values, hnull launcher hm, List.mem_singleton]

-- The console is to be the first launcher, and only on activity A.
def consoleFirst : List String :=
  ["[A]\napplications:org.kde.konsole.desktop", "applications:firefox.desktop"]

theorem not_reads_consoleFirst :
    ¬((pin [.firefox, .konsole]).setLauncherList linkSystem twoActivities consoleFirst).Reads linkSystem
      twoActivities consoleFirst := by
  intro h
  have hnull : nullUuid ∈ ((pin [.firefox, .konsole]).setLauncherList linkSystem twoActivities
      consoleFirst).activitiesAt .konsole := by
    decide
  have hentries : ∀ entry ∈ consoleFirst.filterMap (readEntry linkSystem twoActivities),
      canonicalUrl linkSystem entry.1 = canonicalUrl linkSystem .konsole → entry.2.values = ["A"] := by
    decide
  have ⟨⟨entry, hm, heq, hn⟩, _⟩ := (h.activities .konsole (by decide) nullUuid).mp hnull
  rw [← QSet.mem_values, hentries entry hm heq] at hn
  exact absurd hn (by decide)

end

end LauncherTasksModel
end TaskManager
