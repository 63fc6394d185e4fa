import Mathlib
import PlasmaModel.Folder.Theorems.Items

namespace ScreenMapper

variable {QUrl : Type} [DecidableEq QUrl]

variable {map : AList fun _ : Int × Activity => QSet QUrl} {pair : Int × Activity} {url : QUrl}
variable {entries : List (Sigma fun _ : Int × Activity => QSet QUrl)}

def storeEntry (map : AList fun _ : Int × Activity => QSet QUrl) (entry : Sigma fun _ : Int × Activity => QSet QUrl) :
    AList fun _ : Int × Activity => QSet QUrl :=
  entry.2.values.foldl (insertItem entry.1) map

theorem mem_itemsOn_storeEntries : url ∈ itemsOn (entries.foldl storeEntry map) pair ↔
    url ∈ itemsOn map pair ∨ ∃ entry ∈ entries, entry.1 = pair ∧ url ∈ entry.2 := by
  induction entries generalizing map
  case nil => simp
  case cons entry entries ih =>
    rw [List.foldl_cons, ih, storeEntry, mem_itemsOn_insertItems, or_assoc, List.exists_mem_cons_iff, eq_comm]
    rfl

section

variable {stringToUrl : String → QUrl} {screenId : Int} {activityId activity : Activity} {size counter : Int}

-- The reader before a group.
def Reader.idle (map : AList fun _ : Int × Activity => QSet QUrl) (activityId : Activity) : Reader QUrl :=
  { itemsOnDisabledScreensMap := map, activityId }

-- The reader after some items of a group.
def Reader.reading (map : AList fun _ : Int × Activity => QSet QUrl) (screenId : Int) (activityId : Activity)
    (vectorSize vectorCounter : Int) : Reader QUrl where
  itemsOnDisabledScreensMap := map
  readingScreenId := false
  readingActivityId := false
  vectorSize
  screenId
  activityId
  vectorCounter

theorem Reader.read_item (hn : size ≠ -1) {entry : String} :
    (Reader.reading map screenId activityId size counter).read stringToUrl entry =
      if counter + 1 = size then
        Reader.idle (insertItem (screenId, activityId) map (stringToUrl entry)) activityId
      else
        Reader.reading (insertItem (screenId, activityId) map (stringToUrl entry)) screenId activityId size
          (counter + 1) := by
  rw [Reader.read]
  exact if_neg hn

-- With the right size the reader is done with the last item.
theorem Reader.read_items (hc : 0 ≤ counter) {strings : List String} (hs : strings ≠ [])
    (hn : counter + strings.length = size) :
    strings.foldl (Reader.read stringToUrl) (Reader.reading map screenId activityId size counter) =
      Reader.idle ((strings.map stringToUrl).foldl (insertItem (screenId, activityId)) map) activityId := by
  induction strings generalizing map counter
  case nil => contradiction
  case cons entry strings ih =>
    rw [List.length_cons] at hn
    rw [List.foldl_cons, Reader.read_item (by omega)]
    cases strings
    case nil =>
      rw [if_pos (by simpa using hn)]
      rfl
    case cons =>
      rw [if_neg (by simp at hn; omega), ih (by omega) (List.cons_ne_nil _ _) (by omega)]
      rfl

-- With size 0 it is never done.
theorem Reader.read_all (hc : 0 ≤ counter) (strings : List String) :
    (strings.foldl (Reader.read stringToUrl)
        (Reader.reading map screenId activityId 0 counter)).itemsOnDisabledScreensMap =
      (strings.map stringToUrl).foldl (insertItem (screenId, activityId)) map := by
  induction strings generalizing map counter
  case nil => rfl
  case cons entry strings ih =>
    rw [List.foldl_cons, Reader.read_item (by omega), if_neg (by omega), ih (by omega)]
    rfl

theorem toInt_toString (n : Int) : toInt (toString n) = n := by
  rw [toInt, show toString n = n.repr from rfl, Int.toInt?_repr, Option.getD_some]

theorem toInt_toString_nat (n : Nat) : toInt (toString n) = n := by
  rw [toInt, show toString n = n.repr from rfl, Nat.toInt?_repr, Option.getD_some]

theorem Reader.read_header {strings : List String} {n : Nat} :
    ([toString screenId, activity, toString n] ++ strings).foldl (Reader.read stringToUrl) (Reader.idle map activityId) =
      strings.foldl (Reader.read stringToUrl) (Reader.reading map screenId activity n 0) := by
  have h : (Reader.idle map activityId).read stringToUrl (toString screenId) =
      { Reader.idle map activityId with screenId, readingScreenId := false } :=
    congrArg (fun screenId => { Reader.idle map activityId with screenId, readingScreenId := false })
      (toInt_toString screenId)
  rw [List.foldl_append, List.foldl_cons, h]
  refine congrArg (strings.foldl (Reader.read stringToUrl)) ?_
  exact congrArg (Reader.reading map screenId activity · 0) (toInt_toString_nat n)

variable [ToString QUrl] {entry : Sigma fun _ : Int × Activity => QSet QUrl} {s t : ScreenMapper QUrl}

def group (entry : Sigma fun _ : Int × Activity => QSet QUrl) : List String :=
  [toString entry.1.1, entry.1.2, toString entry.2.size] ++ entry.2.values.map toString

variable (hu : ∀ url : QUrl, stringToUrl (toString url) = url)

include hu

omit [DecidableEq QUrl] in
theorem map_stringToUrl (urls : List QUrl) : (urls.map toString).map stringToUrl = urls := by
  rw [List.map_map]
  exact List.map_id'' hu urls

theorem Reader.read_group (hn : ¬entry.2.isEmpty) :
    (group entry).foldl (Reader.read stringToUrl) (Reader.idle map activityId) =
      Reader.idle (storeEntry map entry) entry.1.2 := by
  have hne : entry.2.values.map (toString : QUrl → String) ≠ [] :=
    fun h => hn (List.isEmpty_iff.mpr (List.map_eq_nil_iff.mp h))
  have hlength : (0 : Int) + (entry.2.values.map (toString : QUrl → String)).length = entry.2.size := by
    rw [List.length_map, zero_add]
    rfl
  rw [group, Reader.read_header, Reader.read_items le_rfl hne hlength, map_stringToUrl hu]
  rfl

omit hu in
-- An empty group swallows everything that follows it.
theorem Reader.read_empty (he : entry.2.isEmpty) (strings : List String) :
    ((group entry ++ strings).foldl (Reader.read stringToUrl) (Reader.idle map activityId)).itemsOnDisabledScreensMap =
      (strings.map stringToUrl).foldl (insertItem entry.1) map := by
  have hv : entry.2.values = [] := List.isEmpty_iff.mp he
  rw [List.foldl_append, group, Reader.read_header, QSet.size, hv]
  exact Reader.read_all le_rfl strings

theorem Reader.read_groups (hn : ∀ entry ∈ entries.dropLast, ¬entry.2.isEmpty) :
    ((entries.flatMap group).foldl (Reader.read stringToUrl) (Reader.idle map activityId)).itemsOnDisabledScreensMap =
      entries.foldl storeEntry map := by
  induction entries generalizing map activityId
  case nil => rfl
  case cons entry entries ih =>
    rw [List.flatMap_cons]
    cases entries
    case nil =>
      by_cases he : entry.2.isEmpty
      case pos =>
        have hv : entry.2.values = [] := List.isEmpty_iff.mp he
        rw [Reader.read_empty he, List.foldl_cons, storeEntry, hv]
        rfl
      case neg =>
        rw [List.foldl_append, Reader.read_group hu he]
        rfl
    case cons next entries =>
      have ⟨he, hn⟩ := List.forall_mem_cons.mp hn
      rw [List.foldl_append, Reader.read_group hu he, ih hn]
      rfl

-- What the first empty group swallows appears on its screen.
theorem Reader.exists_mem_of_empty (h : ∃ entry ∈ entries.dropLast, entry.2.isEmpty) :
    ∃ entry ∈ entries, entry.2.isEmpty ∧ ∃ url, url ∈ itemsOn
      ((entries.flatMap group).foldl (Reader.read stringToUrl) (Reader.idle map activityId)).itemsOnDisabledScreensMap
      entry.1 := by
  induction entries generalizing map activityId
  case nil =>
    have ⟨_, hm, _⟩ := h
    contradiction
  case cons entry entries ih =>
    rw [List.flatMap_cons]
    cases entries
    case nil =>
      have ⟨_, hm, _⟩ := h
      contradiction
    case cons next entries =>
      by_cases he : entry.2.isEmpty
      case pos =>
        refine ⟨entry, List.mem_cons_self, he, stringToUrl (toString next.1.1), ?_⟩
        rw [Reader.read_empty he, mem_itemsOn_insertItems]
        exact .inr ⟨rfl, List.mem_cons_self⟩
      case neg =>
        have h : ∃ entry ∈ (next :: entries).dropLast, entry.2.isEmpty := by
          have ⟨entry', hm, he'⟩ := h
          cases List.mem_cons.mp hm
          case inl heq => exact absurd (heq ▸ he') he
          case inr hm => exact ⟨entry', hm, he'⟩
        rw [List.foldl_append, Reader.read_group hu he]
        obtain ⟨entry', hm, h⟩ := ih h
        exact ⟨entry', List.mem_cons_of_mem _ hm, h⟩

theorem readMappings_entries (entries : List (Sigma fun _ : QUrl × Activity => Int))
    (newMap : AList fun _ : QUrl × Activity => Int) :
    readMappings stringToUrl newMap (entries.flatMap fun entry => [toString entry.1.1, toString entry.2, entry.1.2]) =
      entries.foldl (fun newMap entry => newMap.insert entry.1 entry.2) newMap := by
  induction entries generalizing newMap
  case nil => rfl
  case cons entry entries ih =>
    have h : readMappings stringToUrl newMap
        ((entry :: entries).flatMap fun entry => [toString entry.1.1, toString entry.2, entry.1.2]) =
        readMappings stringToUrl
          (newMap.insert (stringToUrl (toString entry.1.1), entry.1.2) (toInt (toString entry.2)))
          (entries.flatMap fun entry => [toString entry.1.1, toString entry.2, entry.1.2]) := by
      rw [List.flatMap_cons]
      rfl
    rw [h, hu, toInt_toString, ih]
    rfl

theorem setScreenMapping_screenMapping (hs : s.screenItemMap.keys.length ≤ maxMappingCount)
    (key : QUrl × Activity) :
    (t.setScreenMapping stringToUrl s.screenMapping).screenItemMap.lookup key = s.screenItemMap.lookup key := by
  have hs : s.screenItemMap.entries.length ≤ maxMappingCount := Hash.length_keys ▸ hs
  have htake : s.screenItemMap.entries.take maxMappingCount = s.screenItemMap.entries := List.take_of_length_le hs
  have hlength : s.screenMapping.length ≤ maxMappingCount * 3 := by
    rw [screenMapping, htake, List.length_flatMap]
    simp
    omega
  rw [setScreenMapping, List.take_of_length_le hlength, screenMapping, htake, readMappings_entries hu]
  ext screen
  have hn : (s.screenItemMap.entries.map Sigma.fst).Nodup := s.screenItemMap.nodupKeys
  apply (Hash.lookup_foldl_insert hn).trans
  constructor
  case mp =>
    intro h
    cases h
    case inl h =>
      have ⟨entry, he, hk, hv⟩ := h
      subst hk hv
      exact Hash.mem_entries_iff.mp he
    case inr h => exact absurd h.2 (by simp)
  case mpr => exact fun h => .inl ⟨⟨key, screen⟩, Hash.mem_entries_iff.mpr h, rfl, rfl⟩

omit hu in
theorem readDisabledScreensMap_disabledScreensMap (hs : s.itemsOnDisabledScreensMap.keys.length ≤ maxMappingCount) :
    (t.readDisabledScreensMap stringToUrl s.disabledScreensMap).itemsOnDisabledScreensMap =
      ((s.itemsOnDisabledScreensMap.entries.flatMap group).foldl (Reader.read stringToUrl)
        (Reader.idle ∅ "")).itemsOnDisabledScreensMap := by
  have hs : s.itemsOnDisabledScreensMap.entries.length ≤ maxMappingCount := Hash.length_keys ▸ hs
  rw [readDisabledScreensMap, disabledScreensMap, List.take_of_length_le hs]
  rfl

-- Both maps are read as they have been written if and only if no disabled screen that others follow has lost all its items.
theorem read_write_iff (hi : s.screenItemMap.keys.length ≤ maxMappingCount)
    (hg : s.itemsOnDisabledScreensMap.keys.length ≤ maxMappingCount) :
    ((∀ pair url,
        url ∈ itemsOn (t.readDisabledScreensMap stringToUrl s.disabledScreensMap).itemsOnDisabledScreensMap pair ↔
          url ∈ itemsOn s.itemsOnDisabledScreensMap pair) ∧
      ∀ key, (t.setScreenMapping stringToUrl s.screenMapping).screenItemMap.lookup key = s.screenItemMap.lookup key) ↔
      ∀ entry ∈ s.itemsOnDisabledScreensMap.entries.dropLast, ¬entry.2.isEmpty := by
  rw [readDisabledScreensMap_disabledScreensMap hg]
  constructor
  case mp =>
    intro ⟨h, _⟩ entry hm he
    obtain ⟨entry, hm, he, url, hurl⟩ := Reader.exists_mem_of_empty hu ⟨entry, hm, he⟩
    have hl : s.itemsOnDisabledScreensMap.lookup entry.1 = some entry.2 := Hash.mem_entries_iff.mp hm
    have hmem := (h _ _).mp hurl
    rw [itemsOn, hl] at hmem
    exact QSet.isEmpty_iff.mp he url hmem
  case mpr =>
    intro hn
    refine ⟨fun pair url => ?_, setScreenMapping_screenMapping hu hi⟩
    rw [Reader.read_groups hu hn, mem_itemsOn_storeEntries, or_iff_right]
    · exact mem_itemsOn_iff.symm
    · exact QSet.notMem_empty

end

-- Two items are on disabled screens, of which the second is listed first.
def twoDisabled : ScreenMapper String :=
  let s := (addMapping {} "/a" 0 "A").addMapping "/b" 1 "A"
  (s.maybeMoveToDisabledScreens "/a" "A").maybeMoveToDisabledScreens "/b" "A"

-- The group of the first screen has no items and is written last.
theorem read_write_iff_lastEmpty :
    let s := twoDisabled.removeItemFromDisabledScreen "/a"
    (∀ pair url, url ∈ itemsOn (s.readDisabledScreensMap id s.disabledScreensMap).itemsOnDisabledScreensMap pair ↔
      url ∈ itemsOn s.itemsOnDisabledScreensMap pair) ∧
      ∀ key, (s.setScreenMapping id s.screenMapping).screenItemMap.lookup key = s.screenItemMap.lookup key := by
  intro s
  have hu : ∀ url : String, id (toString url) = url := fun _ => rfl
  have hn : ∀ entry ∈ s.itemsOnDisabledScreensMap.entries.dropLast, ¬entry.2.isEmpty := by decide
  exact (read_write_iff hu (by decide) (by decide)).mpr hn

-- The group of the second screen has no items and is written before the other.
theorem read_write_firstEmpty :
    let s := twoDisabled.removeItemFromDisabledScreen "/b"
    ¬∀ pair url, url ∈ itemsOn (s.readDisabledScreensMap id s.disabledScreensMap).itemsOnDisabledScreensMap pair ↔
      url ∈ itemsOn s.itemsOnDisabledScreensMap pair := by
  intro s h
  have hempty : ∃ entry ∈ s.itemsOnDisabledScreensMap.entries.dropLast, entry.2.isEmpty :=
    ⟨⟨(1, "A"), ∅⟩, by decide, rfl⟩
  have hu : ∀ url : String, id (toString url) = url := fun _ => rfl
  obtain ⟨entry, hm, he, url, hurl⟩ := Reader.exists_mem_of_empty hu hempty
  rw [readDisabledScreensMap_disabledScreensMap (by decide)] at h
  have hmem := (h entry.1 url).mp hurl
  rw [itemsOn, Hash.mem_entries_iff.mp hm] at hmem
  exact QSet.isEmpty_iff.mp he url hmem

end ScreenMapper
