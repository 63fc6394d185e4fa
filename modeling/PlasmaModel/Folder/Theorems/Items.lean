import Mathlib.Data.List.Perm.Subperm
import PlasmaModel.Folder.ScreenMapper

namespace ScreenMapper

variable {QUrl : Type} [DecidableEq QUrl]
variable {map : AList fun _ : Int × Activity => QSet QUrl} {pair pair' : Int × Activity} {url url' : QUrl}
variable {urls : List QUrl} {entries : List (Sigma fun _ : Int × Activity => QSet QUrl)}

omit [DecidableEq QUrl] in
theorem mem_itemsOn_iff : url ∈ itemsOn map pair ↔ ∃ entry ∈ map.entries, entry.1 = pair ∧ url ∈ entry.2 := by
  rw [itemsOn]
  constructor
  case mp =>
    intro h
    cases hl : map.lookup pair
    case none => exact absurd (hl ▸ h) QSet.notMem_empty
    case some urls => exact ⟨⟨pair, urls⟩, Hash.mem_entries_iff.mpr hl, rfl, by rwa [hl] at h⟩
  case mpr =>
    intro ⟨entry, he, hp, hu⟩
    rw [Hash.mem_entries_iff.mp (hp ▸ he : ⟨pair, entry.2⟩ ∈ map.entries)]
    exact hu

theorem mem_itemsOn_insertItem :
    url' ∈ itemsOn (insertItem pair map url) pair' ↔ url' ∈ itemsOn map pair' ∨ pair' = pair ∧ url' = url := by
  rw [itemsOn, insertItem, Hash.lookup_insert]
  split
  case isTrue h =>
    subst h
    rw [Option.getD_some, QSet.mem_insert, or_comm]
    simp
  case isFalse h => simp [h, itemsOn]

theorem mem_itemsOn_insertItems :
    url ∈ itemsOn (urls.foldl (insertItem pair) map) pair' ↔ url ∈ itemsOn map pair' ∨ pair' = pair ∧ url ∈ urls := by
  induction urls generalizing map
  case nil => simp
  case cons url urls ih =>
    rw [List.foldl_cons, ih, mem_itemsOn_insertItem, List.mem_cons, or_assoc, and_or_left]

omit [DecidableEq QUrl] in
theorem onDisabledScreen_iff : OnDisabledScreen map url ↔ ∃ pair, url ∈ itemsOn map pair := by
  constructor
  case mp => exact fun ⟨entry, he, hu⟩ => ⟨entry.1, mem_itemsOn_iff.mpr ⟨entry, he, rfl, hu⟩⟩
  case mpr =>
    intro ⟨pair, h⟩
    have ⟨entry, he, _, hu⟩ := mem_itemsOn_iff.mp h
    exact ⟨entry, he, hu⟩

theorem onDisabledScreen_insertItem :
    OnDisabledScreen (insertItem pair map url) url' ↔ OnDisabledScreen map url' ∨ url' = url := by
  simp only [onDisabledScreen_iff, mem_itemsOn_insertItem, exists_or, exists_eq_left]

def storeItems (pair : Int × Activity) (map : AList fun _ : Int × Activity => QSet QUrl) (urls : List QUrl) :
    AList fun _ : Int × Activity => QSet QUrl :=
  urls.foldl (fun map url => if OnDisabledScreen map url then map else insertItem pair map url) map

theorem mem_itemsOn_storeItems : url ∈ itemsOn (storeItems pair map urls) pair' ↔
    url ∈ itemsOn map pair' ∨ pair' = pair ∧ url ∈ urls ∧ ¬OnDisabledScreen map url := by
  induction urls generalizing map
  case nil => simp [storeItems]
  case cons url' urls ih =>
    rw [storeItems, List.foldl_cons]
    apply ih.trans
    by_cases hd : OnDisabledScreen map url'
    case pos =>
      rw [if_pos hd, List.mem_cons]
      by_cases heq : url = url'
      case pos => simp [heq, hd]
      case neg => simp [heq]
    case neg =>
      rw [if_neg hd, mem_itemsOn_insertItem, onDisabledScreen_insertItem, List.mem_cons]
      by_cases heq : url = url'
      case pos => simp [heq, hd]
      case neg => simp [heq]

section

variable {s : ScreenMapper QUrl} {key : QUrl × Activity} {screenId : Int} {activity : Activity}
variable {screens : AList fun _ : QUrl × Activity => Int} {known : List (QUrl × Activity)}

theorem lookup_eraseItems : (urls.foldl (fun map url => map.erase (url, activity)) screens).lookup key =
    if key.1 ∈ urls ∧ key.2 = activity then none else screens.lookup key := by
  induction urls generalizing screens
  case nil => simp
  case cons url urls ih =>
    rw [List.foldl_cons, ih, Hash.lookup_erase]
    by_cases hu : key.1 ∈ urls
    all_goals by_cases ha : key.2 = activity
    all_goals simp [hu, ha, Prod.ext_iff]

-- The limit is on the number of items that are mapped at once.
theorem addMapping_eq (hm : ∀ key ∈ s.screenItemMap, key ∈ known) (hl : known.length ≤ maxMappingCount) :
    s.addMapping url screenId activity =
      { s with screenItemMap := s.screenItemMap.insert (url, activity) screenId } := by
  have hle : s.screenItemMap.keys.length ≤ known.length :=
    (List.subperm_of_subset s.screenItemMap.nodupKeys hm).length_le
  exact if_neg (Nat.not_lt.mpr (Nat.le_trans hle hl))

theorem addMappings_other : s.addMappings screenId activity urls =
    { s with screenItemMap := (s.addMappings screenId activity urls).screenItemMap } := by
  induction urls generalizing s
  case nil => rfl
  case cons url urls ih =>
    have h : s.addMapping url screenId activity =
        { s with screenItemMap := (s.addMapping url screenId activity).screenItemMap } := by
      rw [addMapping]
      split
      case isTrue => rfl
      case isFalse => rfl
    rw [addMappings, List.foldl_cons]
    apply ih.trans
    rw [h]
    rfl

theorem lookup_addMappings (hm : ∀ key ∈ s.screenItemMap, key ∈ known) (hl : known.length ≤ maxMappingCount)
    (hu : ∀ url ∈ urls, (url, activity) ∈ known) :
    (s.addMappings screenId activity urls).screenItemMap.lookup key =
      if key.1 ∈ urls ∧ key.2 = activity then some screenId else s.screenItemMap.lookup key := by
  induction urls generalizing s
  case nil => simp [addMappings]
  case cons url urls ih =>
    have ⟨hurl, hu⟩ := List.forall_mem_cons.mp hu
    have hm' : ∀ key ∈ s.screenItemMap.insert (url, activity) screenId, key ∈ known := by
      intro key hk
      cases AList.mem_insert _ |>.mp hk
      case inl heq => exact heq ▸ hurl
      case inr hk => exact hm key hk
    rw [addMappings, List.foldl_cons, addMapping_eq hm hl]
    apply (ih hm' hu).trans
    rw [Hash.lookup_insert]
    by_cases hu : key.1 ∈ urls
    all_goals by_cases ha : key.2 = activity
    all_goals simp [hu, ha, Prod.ext_iff]

end

end ScreenMapper

namespace ScreenMapper

variable {QUrl : Type} [DecidableEq QUrl] [ToString QUrl] {s : ScreenMapper QUrl}
variable {screenId : Int} {activity : Activity} {screenUrl url : QUrl} {pair : Int × Activity}

-- Calls for screens that are not there, or are there already, do nothing.
def Removable (s : ScreenMapper QUrl) (screenId : Int) (activity : Activity) : Prop :=
  ¬(screenId < 0 ∨ (screenId, activity) ∉ s.availableScreens)

def Addable (s : ScreenMapper QUrl) (screenId : Int) (activity : Activity) : Prop :=
  ¬(screenId < 0 ∨ (screenId, activity) ∈ s.availableScreens)

instance : Decidable (s.Removable screenId activity) :=
  inferInstanceAs (Decidable ¬(_ ∨ _))

instance : Decidable (s.Addable screenId activity) :=
  inferInstanceAs (Decidable ¬(_ ∨ _))

theorem mem_urlsToRemoveFromMapping : url ∈ s.urlsToRemoveFromMapping screenId activity screenUrl ↔
    s.screenItemMap.lookup (url, activity) = some screenId ∧ startsWith url screenUrl := by
  rw [urlsToRemoveFromMapping, List.mem_filterMap]
  constructor
  case mp =>
    intro ⟨entry, he, h⟩
    have ⟨⟨hscreen, hstarts, hactivity⟩, h⟩ := Option.ite_none_right_eq_some.mp h
    cases h
    subst hscreen hactivity
    exact ⟨Hash.mem_entries_iff.mp he, hstarts⟩
  case mpr =>
    intro ⟨hl, hstarts⟩
    exact ⟨⟨(url, activity), screenId⟩, Hash.mem_entries_iff.mpr hl, if_pos ⟨rfl, hstarts, rfl⟩⟩

theorem removeScreen_of_not (h : ¬s.Removable screenId activity) : s.removeScreen screenId activity screenUrl = s :=
  if_pos (not_not.mp h)

theorem addScreen_of_not (h : ¬s.Addable screenId activity) : s.addScreen screenId activity screenUrl = s :=
  if_pos (not_not.mp h)

theorem removeScreen_eq (h : s.Removable screenId activity) :
    ∃ screensPerPath, s.removeScreen screenId activity screenUrl =
      let urls := s.urlsToRemoveFromMapping screenId activity screenUrl
      { screenItemMap := urls.foldl (fun map url => map.erase (url, activity)) s.screenItemMap
        itemsOnDisabledScreensMap := storeItems (screenId, activity) s.itemsOnDisabledScreensMap urls
        screensPerPath
        availableScreens := s.availableScreens.filter (· != (screenId, activity)) } := by
  rw [removeScreen, if_neg h]
  dsimp only
  split
  case h_1 => exact ⟨_, rfl⟩
  case h_2 =>
    split
    case isTrue => exact ⟨_, rfl⟩
    case isFalse => exact ⟨_, rfl⟩

-- What is added and what is left of the stored items.
def Restores (s : ScreenMapper QUrl) (screenId : Int) (activity : Activity) (screenUrl : QUrl) (restored : List QUrl)
    (items : AList fun _ : Int × Activity => QSet QUrl) : Prop :=
  (∀ url, url ∈ restored ↔
    url ∈ itemsOn s.itemsOnDisabledScreensMap (screenId, activity) ∧ startsWith url screenUrl) ∧
  ∀ pair url, url ∈ itemsOn items pair ↔
    url ∈ itemsOn s.itemsOnDisabledScreensMap pair ∧ ¬(pair = (screenId, activity) ∧ startsWith url screenUrl)

theorem restoreItems_eq : ∃ restored items, s.restoreItems screenId activity screenUrl =
    { s with
      screenItemMap := (s.addMappings screenId activity restored).screenItemMap
      itemsOnDisabledScreensMap := items } ∧
    s.Restores screenId activity screenUrl restored items := by
  rw [restoreItems]
  dsimp only
  split
  case h_2 hl =>
    have hempty : itemsOn s.itemsOnDisabledScreensMap (screenId, activity) = ∅ := by rw [itemsOn, hl]; rfl
    refine ⟨[], s.itemsOnDisabledScreensMap, rfl, fun url => ?_, fun pair url => ?_⟩
    · simp [hempty]
    · exact (and_iff_left_of_imp fun hu ⟨heq, _⟩ => QSet.notMem_empty (hempty ▸ heq ▸ hu)).symm
  case h_1 items hl =>
    have hitems : itemsOn s.itemsOnDisabledScreensMap (screenId, activity) = items := by rw [itemsOn, hl]; rfl
    rw [addMappings_other]
    split
    case isTrue he =>
      refine ⟨_, _, rfl, fun url => hitems ▸ QSet.mem_filter, fun pair url => ?_⟩
      rw [itemsOn, Hash.lookup_erase]
      split
      case isTrue heq =>
        subst heq
        have hall := QSet.isEmpty_iff.mp he url
        rw [QSet.mem_filter] at hall
        rw [hitems]
        simpa using hall
      case isFalse hne => simp [hne, itemsOn]
    case isFalse =>
      refine ⟨_, _, rfl, fun url => hitems ▸ QSet.mem_filter, fun pair url => ?_⟩
      rw [itemsOn, Hash.lookup_insert]
      split
      case isTrue heq =>
        subst heq
        rw [Option.getD_some, QSet.mem_filter, hitems]
        simp
      case isFalse hne => simp [hne, itemsOn]

theorem addScreen_eq (h : s.Addable screenId activity) :
    ∃ restored items screensPerPath, s.addScreen screenId activity screenUrl =
      { screenItemMap := (s.addMappings screenId activity restored).screenItemMap
        itemsOnDisabledScreensMap := items
        screensPerPath
        availableScreens := s.availableScreens ++ [(screenId, activity)] } ∧
      s.Restores screenId activity screenUrl restored items := by
  obtain ⟨restored, items, heq, hr⟩ := s.restoreItems_eq
  rw [addScreen, if_neg h]
  dsimp only
  rw [heq]
  split
  case isTrue => exact ⟨restored, items, _, rfl, hr⟩
  case isFalse => exact ⟨restored, items, _, rfl, hr⟩

section

variable {activity' : Activity} {known : List (QUrl × Activity)}

def Takes (s : ScreenMapper QUrl) (screenId : Int) (activity : Activity) (screenUrl url : QUrl) : Prop :=
  s.screenItemMap.lookup (url, activity) = some screenId ∧ startsWith url screenUrl

def GivesBack (s : ScreenMapper QUrl) (screenId : Int) (activity : Activity) (screenUrl url : QUrl) : Prop :=
  url ∈ itemsOn s.itemsOnDisabledScreensMap (screenId, activity) ∧ startsWith url screenUrl

theorem not_takes (h : s.screenItemMap.lookup (url, activity) = none) : ¬s.Takes screenId activity screenUrl url :=
  fun ht => Option.some_ne_none _ (ht.1.symm.trans h)

theorem lookup_removeScreen_of_takes (h : s.Removable screenId activity)
    (ht : s.Takes screenId activity screenUrl url) :
    (s.removeScreen screenId activity screenUrl).screenItemMap.lookup (url, activity) = none := by
  obtain ⟨_, heq⟩ := s.removeScreen_eq h
  rw [heq]
  exact lookup_eraseItems.trans (if_pos ⟨mem_urlsToRemoveFromMapping.mpr ht, rfl⟩)

theorem lookup_removeScreen_of_not_takes (h : s.Removable screenId activity)
    (ht : activity' = activity → ¬s.Takes screenId activity screenUrl url) :
    (s.removeScreen screenId activity screenUrl).screenItemMap.lookup (url, activity') =
      s.screenItemMap.lookup (url, activity') := by
  obtain ⟨_, heq⟩ := s.removeScreen_eq h
  rw [heq]
  exact lookup_eraseItems.trans (if_neg fun ⟨hm, ha⟩ => ht ha (mem_urlsToRemoveFromMapping.mp hm))

theorem mem_of_mem_removeScreen {key : QUrl × Activity} (h : s.Removable screenId activity)
    (hk : key ∈ (s.removeScreen screenId activity screenUrl).screenItemMap) : key ∈ s.screenItemMap := by
  obtain ⟨_, heq⟩ := s.removeScreen_eq h
  have ⟨screen, hl⟩ := Hash.mem_iff.mp (heq ▸ hk)
  exact Hash.mem_iff.mpr ⟨screen, (Option.ite_none_left_eq_some.mp (lookup_eraseItems.symm.trans hl)).2⟩

theorem mem_itemsOn_removeScreen (h : s.Removable screenId activity) :
    url ∈ itemsOn (s.removeScreen screenId activity screenUrl).itemsOnDisabledScreensMap pair ↔
      url ∈ itemsOn s.itemsOnDisabledScreensMap pair ∨ pair = (screenId, activity) ∧
        s.Takes screenId activity screenUrl url ∧ ¬OnDisabledScreen s.itemsOnDisabledScreensMap url := by
  obtain ⟨_, heq⟩ := s.removeScreen_eq h
  rw [heq]
  apply mem_itemsOn_storeItems.trans
  rw [mem_urlsToRemoveFromMapping]
  rfl

theorem mem_availableScreens_removeScreen (h : s.Removable screenId activity) :
    pair ∈ (s.removeScreen screenId activity screenUrl).availableScreens ↔
      pair ∈ s.availableScreens ∧ pair ≠ (screenId, activity) := by
  obtain ⟨_, heq⟩ := s.removeScreen_eq h
  rw [heq]
  simp

section

variable (hm : ∀ key ∈ s.screenItemMap, key ∈ known)
  (hs : ∀ pair, ∀ url ∈ itemsOn s.itemsOnDisabledScreensMap pair, (url, pair.2) ∈ known)
  (hl : known.length ≤ maxMappingCount)

include hm hs hl

theorem lookup_addScreen_of_givesBack (h : s.Addable screenId activity)
    (hg : s.GivesBack screenId activity screenUrl url) :
    (s.addScreen screenId activity screenUrl).screenItemMap.lookup (url, activity) = some screenId := by
  obtain ⟨_, _, _, heq, hr, _⟩ := s.addScreen_eq h
  rw [heq]
  have hk : ∀ url ∈ _, (url, activity) ∈ known := fun url hu => hs (screenId, activity) url ((hr url).mp hu).1
  exact (lookup_addMappings hm hl hk).trans (if_pos ⟨(hr url).mpr hg, rfl⟩)

theorem lookup_addScreen_of_not_givesBack (h : s.Addable screenId activity)
    (hg : activity' = activity → ¬s.GivesBack screenId activity screenUrl url) :
    (s.addScreen screenId activity screenUrl).screenItemMap.lookup (url, activity') =
      s.screenItemMap.lookup (url, activity') := by
  obtain ⟨_, _, _, heq, hr, _⟩ := s.addScreen_eq h
  rw [heq]
  have hk : ∀ url ∈ _, (url, activity) ∈ known := fun url hu => hs (screenId, activity) url ((hr url).mp hu).1
  exact (lookup_addMappings hm hl hk).trans (if_neg fun ⟨hu, ha⟩ => hg ha ((hr url).mp hu))

theorem mem_of_mem_addScreen {key : QUrl × Activity} (h : s.Addable screenId activity)
    (hk : key ∈ (s.addScreen screenId activity screenUrl).screenItemMap) :
    key ∈ s.screenItemMap ∨ key.2 = activity ∧ s.GivesBack screenId activity screenUrl key.1 := by
  obtain ⟨_, _, _, heq, hr, _⟩ := s.addScreen_eq h
  have hu : ∀ url ∈ _, (url, activity) ∈ known := fun url hu => hs (screenId, activity) url ((hr url).mp hu).1
  have ⟨screen, hk⟩ := Hash.mem_iff.mp (heq ▸ hk)
  have hk := (lookup_addMappings hm hl hu).symm.trans hk
  split at hk
  case isTrue hg => exact .inr ⟨hg.2, (hr _).mp hg.1⟩
  case isFalse => exact .inl (Hash.mem_iff.mpr ⟨screen, hk⟩)

end

theorem mem_itemsOn_addScreen (h : s.Addable screenId activity) :
    url ∈ itemsOn (s.addScreen screenId activity screenUrl).itemsOnDisabledScreensMap pair ↔
      url ∈ itemsOn s.itemsOnDisabledScreensMap pair ∧ ¬(pair = (screenId, activity) ∧ startsWith url screenUrl) := by
  obtain ⟨_, _, _, heq, _, hi⟩ := s.addScreen_eq h
  rw [heq]
  exact hi pair url

theorem mem_availableScreens_addScreen (h : s.Addable screenId activity) :
    pair ∈ (s.addScreen screenId activity screenUrl).availableScreens ↔
      pair ∈ s.availableScreens ∨ pair = (screenId, activity) := by
  obtain ⟨_, _, _, heq, _⟩ := s.addScreen_eq h
  rw [heq]
  simp

end

end ScreenMapper
