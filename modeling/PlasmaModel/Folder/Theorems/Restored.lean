import PlasmaModel.Folder.Theorems.Items

namespace ScreenMapper

inductive ScreenEvent (QUrl : Type)
  | removeScreen (screenId : Int) (activity : Activity) (screenUrl : QUrl)
  | addScreen (screenId : Int) (activity : Activity) (screenUrl : QUrl)

-- The path with which a screen has been removed and not been added again.
structure Session (QUrl : Type) where
  mapper  : ScreenMapper QUrl
  removed : Int × Activity → Option QUrl := fun _ => none

namespace Session

variable {QUrl : Type} [DecidableEq QUrl] [ToString QUrl]

-- A screen that has been removed is added with the same path.
def step (s : Session QUrl) : ScreenEvent QUrl → Option (Session QUrl)
  | .removeScreen screenId activity screenUrl =>
    let mapper := s.mapper.removeScreen screenId activity screenUrl
    if s.mapper.Removable screenId activity then
      some ⟨mapper, Function.update s.removed (screenId, activity) screenUrl⟩
    else
      some ⟨mapper, s.removed⟩
  | .addScreen screenId activity screenUrl =>
    let mapper := s.mapper.addScreen screenId activity screenUrl
    if s.mapper.Addable screenId activity then
      if s.removed (screenId, activity) ∈ [none, some screenUrl] then
        some ⟨mapper, Function.update s.removed (screenId, activity) none⟩
      else
        none
    else
      some ⟨mapper, s.removed⟩

def run (s : Session QUrl) (events : List (ScreenEvent QUrl)) : Option (Session QUrl) :=
  events.foldlM step s

-- No item that the screen takes with it is stored for a disabled screen already.
def Keeps (items : QUrl × Activity → Prop) (s : Session QUrl) : ScreenEvent QUrl → Prop
  | .removeScreen screenId activity screenUrl =>
    s.mapper.Removable screenId activity →
      ∀ url ∈ s.mapper.urlsToRemoveFromMapping screenId activity screenUrl, items (url, activity) →
        ¬OnDisabledScreen s.mapper.itemsOnDisabledScreensMap url
  | .addScreen _ _ _ => True

def KeepsAll (items : QUrl × Activity → Prop) (s : Session QUrl) : List (ScreenEvent QUrl) → Prop
  | [] => True
  | event :: events => s.Keeps items event ∧ ∀ s', s.step event = some s' → s'.KeepsAll items events

instance {items : QUrl × Activity → Prop} [DecidablePred items] {s : Session QUrl} {event : ScreenEvent QUrl} :
    Decidable (s.Keeps items event) :=
  match event with
  | .removeScreen _ _ _ => inferInstanceAs (Decidable (_ → _))
  | .addScreen _ _ _ => isTrue trivial

instance decidableKeepsAll {items : QUrl × Activity → Prop} [DecidablePred items] :
    (s : Session QUrl) → (events : List (ScreenEvent QUrl)) → Decidable (s.KeepsAll items events)
  | _, [] => isTrue trivial
  | s, event :: events =>
    have : Decidable (∀ s', s.step event = some s' → s'.KeepsAll items events) :=
      match s.step event with
      | none => isTrue nofun
      | some s' =>
        have : Decidable (s'.KeepsAll items events) := decidableKeepsAll s' events
        decidable_of_iff (s'.KeepsAll items events) ⟨fun h _ heq => Option.some.inj heq ▸ h, fun h => h s' rfl⟩
    inferInstanceAs (Decidable (_ ∧ _))

-- The different items that are mapped or stored are not more than the limit.
structure Within (s : Session QUrl) (known : List (QUrl × Activity)) : Prop where
  mapped : ∀ key ∈ s.mapper.screenItemMap, key ∈ known
  stored : ∀ pair, ∀ url ∈ itemsOn s.mapper.itemsOnDisabledScreensMap pair, (url, pair.2) ∈ known
  limit  : known.length ≤ maxMappingCount

def Parted (s : Session QUrl) : Prop :=
  ∀ pair ∈ s.mapper.availableScreens, s.removed pair = none

-- Where an item is, of which only the disabled screens of its activity matter.
inductive Kept (s : Session QUrl) (url : QUrl) (activity : Activity) (screen : Int) : Prop
  | mapped (lookup : s.mapper.screenItemMap.lookup (url, activity) = some screen)
      (notStored : ∀ i, url ∉ itemsOn s.mapper.itemsOnDisabledScreensMap (i, activity))
  | stored (screenUrl : QUrl) (lookup : s.mapper.screenItemMap.lookup (url, activity) = none)
      (stored : ∀ i, url ∈ itemsOn s.mapper.itemsOnDisabledScreensMap (i, activity) ↔ i = screen)
      (removed : s.removed (screen, activity) = some screenUrl) (below : startsWith url screenUrl)

structure Lost (s : Session QUrl) (url : QUrl) (activity : Activity) : Prop where
  lookup    : s.mapper.screenItemMap.lookup (url, activity) = none
  notStored : ∀ i, url ∉ itemsOn s.mapper.itemsOnDisabledScreensMap (i, activity)

variable {s s' : Session QUrl} {event : ScreenEvent QUrl} {known : List (QUrl × Activity)} {url screenUrl : QUrl}
variable {activity : Activity} {screenId screen : Int}

theorem step_cases (h : s.step event = some s') :
    (∃ screenId activity screenUrl, event = .removeScreen screenId activity screenUrl ∧
      s.mapper.Removable screenId activity ∧ s' = ⟨s.mapper.removeScreen screenId activity screenUrl,
        Function.update s.removed (screenId, activity) screenUrl⟩) ∨
    (∃ screenId activity screenUrl, event = .addScreen screenId activity screenUrl ∧
      s.mapper.Addable screenId activity ∧ s.removed (screenId, activity) ∈ [none, some screenUrl] ∧
      s' = ⟨s.mapper.addScreen screenId activity screenUrl, Function.update s.removed (screenId, activity) none⟩) ∨
    (s' = s ∧ ∀ items, s.Keeps items event) := by
  cases event
  case removeScreen screenId activity screenUrl =>
    by_cases hr : s.mapper.Removable screenId activity
    case pos =>
      rw [step, if_pos hr] at h
      cases h
      exact .inl ⟨_, _, _, rfl, hr, rfl⟩
    case neg =>
      rw [step, if_neg hr, removeScreen_of_not hr] at h
      cases h
      exact .inr (.inr ⟨rfl, fun _ hr' => absurd hr' hr⟩)
  case addScreen screenId activity screenUrl =>
    by_cases ha : s.mapper.Addable screenId activity
    case pos =>
      rw [step, if_pos ha] at h
      have ⟨hr, h⟩ := Option.ite_none_right_eq_some.mp h
      cases h
      exact .inr (.inl ⟨_, _, _, rfl, ha, hr, rfl⟩)
    case neg =>
      rw [step, if_neg ha, addScreen_of_not ha] at h
      cases h
      exact .inr (.inr ⟨rfl, fun _ => trivial⟩)

theorem Parted.step (h : s.Parted) (hs : s.step event = some s') : s'.Parted := by
  cases step_cases hs
  case inl he =>
    have ⟨_, _, _, _, hr, heq⟩ := he
    subst heq
    intro pair hp
    have ⟨hp, hne⟩ := (mem_availableScreens_removeScreen hr).mp hp
    exact (Function.update_of_ne hne _ _).trans (h pair hp)
  case inr he =>
    cases he
    case inl he =>
      have ⟨screenId, activity, _, _, ha, _, heq⟩ := he
      subst heq
      intro pair hp
      by_cases hpair : pair = (screenId, activity)
      case pos => exact hpair ▸ Function.update_self _ _ _
      case neg =>
        have hp := ((mem_availableScreens_addScreen ha).mp hp).resolve_right hpair
        exact (Function.update_of_ne hpair _ _).trans (h pair hp)
    case inr he => exact he.1 ▸ h

theorem Within.step (h : s.Within known) (hs : s.step event = some s') : s'.Within known := by
  cases step_cases hs
  case inl he =>
    have ⟨_, activity, _, _, hr, heq⟩ := he
    subst heq
    refine ⟨fun key hk => ?_, fun pair url hu => ?_, h.limit⟩
    · exact h.mapped key (mem_of_mem_removeScreen hr hk)
    · cases (mem_itemsOn_removeScreen hr).mp hu
      case inl hu => exact h.stored pair url hu
      case inr hu =>
        have ⟨hp, ht, _⟩ := hu
        subst hp
        exact h.mapped _ (Hash.mem_iff.mpr ⟨_, ht.1⟩)
  case inr he =>
    cases he
    case inl he =>
      have ⟨screenId, activity, _, _, ha, _, heq⟩ := he
      subst heq
      refine ⟨fun key hk => ?_, fun pair url hu => ?_, h.limit⟩
      · cases mem_of_mem_addScreen h.mapped h.stored h.limit ha hk
        case inl hk => exact h.mapped key hk
        case inr hk =>
          cases key
          cases hk.1
          exact h.stored _ _ hk.2.1
      · exact h.stored pair url ((mem_itemsOn_addScreen ha).mp hu).1
    case inr he => exact he.1 ▸ h

theorem Lost.step (h : s.Lost url activity) (hw : s.Within known) (hs : s.step event = some s') :
    s'.Lost url activity := by
  cases step_cases hs
  case inl he =>
    have ⟨_, _, _, _, hr, heq⟩ := he
    subst heq
    refine ⟨?_, fun i hu => ?_⟩
    · apply (lookup_removeScreen_of_not_takes hr _).trans h.lookup
      exact fun ha => not_takes (ha ▸ h.lookup)
    · cases (mem_itemsOn_removeScreen hr).mp hu
      case inl hu => exact h.notStored i hu
      case inr hu =>
        have ⟨hpair, ht, _⟩ := hu
        cases hpair
        exact not_takes h.lookup ht
  case inr he =>
    cases he
    case inl he =>
      have ⟨_, _, _, _, ha, _, heq⟩ := he
      subst heq
      refine ⟨?_, fun i hu => ?_⟩
      · apply (lookup_addScreen_of_not_givesBack hw.mapped hw.stored hw.limit ha _).trans h.lookup
        exact fun heq hg => h.notStored _ (heq ▸ hg.1)
      · exact h.notStored i ((mem_itemsOn_addScreen ha).mp hu).1
    case inr he => exact he.1 ▸ h

-- An item that is taken goes to the disabled screen, unless it is found on some disabled screen.
theorem Kept.removeScreen {removed : Int × Activity → Option QUrl} {activity' : Activity}
    (h : s.Kept url activity screen) (hr : s.mapper.Removable screenId activity')
    (hp : s.Parted) (hremoved : removed = Function.update s.removed (screenId, activity') screenUrl) :
    (s.Keeps (· = (url, activity)) (.removeScreen screenId activity' screenUrl) →
      Kept ⟨s.mapper.removeScreen screenId activity' screenUrl, removed⟩ url activity screen) ∧
    (¬s.Keeps (· = (url, activity)) (.removeScreen screenId activity' screenUrl) →
      Lost ⟨s.mapper.removeScreen screenId activity' screenUrl, removed⟩ url activity) := by
  subst hremoved
  cases h
  case mapped hl hn =>
    by_cases ht : activity = activity' ∧ s.mapper.Takes screenId activity' screenUrl url
    case pos =>
      have ⟨ha, ht⟩ := ht
      subst ha
      have hscreen : screen = screenId := Option.some.inj (hl.symm.trans ht.1)
      subst hscreen
      have hlookup := lookup_removeScreen_of_takes hr ht
      refine ⟨fun hk => ?_, fun hk => ⟨hlookup, fun i hu => ?_⟩⟩
      · have hd := hk hr url (mem_urlsToRemoveFromMapping.mpr ht) rfl
        refine .stored screenUrl hlookup (fun i => ?_) (Function.update_self _ _ _) ht.2
        rw [mem_itemsOn_removeScreen hr, or_iff_right (hn i), Prod.mk.injEq]
        exact ⟨fun hi => hi.1.1, fun hi => ⟨⟨hi, rfl⟩, ht, hd⟩⟩
      · apply hk
        intro _ url' hu' heq
        cases heq
        cases (mem_itemsOn_removeScreen hr).mp hu
        case inl hu => exact absurd hu (hn i)
        case inr hu => exact hu.2.2
    case neg =>
      have hkept : Kept ⟨s.mapper.removeScreen screenId activity' screenUrl,
          Function.update s.removed (screenId, activity') screenUrl⟩ url activity screen := by
        refine .mapped ?_ fun i hu => ?_
        · exact (lookup_removeScreen_of_not_takes hr fun ha htakes => ht ⟨ha, htakes⟩).trans hl
        · cases (mem_itemsOn_removeScreen hr).mp hu
          case inl hu => exact hn i hu
          case inr hu => exact ht ⟨congrArg Prod.snd hu.1, hu.2.1⟩
      refine ⟨fun _ => hkept, fun hk => absurd ?_ hk⟩
      intro _ url' hu' heq
      cases heq
      exact absurd ⟨rfl, mem_urlsToRemoveFromMapping.mp hu'⟩ ht
  case stored screenUrl' hl hs hremoved hb =>
    have ht : activity = activity' → ¬s.mapper.Takes screenId activity' screenUrl url :=
      fun ha => not_takes (ha ▸ hl)
    have hd : OnDisabledScreen s.mapper.itemsOnDisabledScreensMap url :=
      onDisabledScreen_iff.mpr ⟨_, (hs screen).mpr rfl⟩
    have hne : (screen, activity) ≠ (screenId, activity') := by
      intro heq
      have hnone := hp (screenId, activity') (not_not.mp (not_or.mp hr).2)
      exact Option.some_ne_none _ (hremoved.symm.trans (heq ▸ hnone))
    have hkept : Kept ⟨s.mapper.removeScreen screenId activity' screenUrl,
        Function.update s.removed (screenId, activity') screenUrl⟩ url activity screen := by
      refine .stored screenUrl' ?_ (fun i => ?_) ((Function.update_of_ne hne _ _).trans hremoved) hb
      · exact (lookup_removeScreen_of_not_takes hr ht).trans hl
      · rw [mem_itemsOn_removeScreen hr, or_iff_left fun hu => hu.2.2 hd]
        exact hs i
    refine ⟨fun _ => hkept, fun hk => absurd ?_ hk⟩
    intro _ url' hu' heq
    cases heq
    exact absurd (mem_urlsToRemoveFromMapping.mp hu') (ht rfl)

theorem Kept.addScreen {removed : Int × Activity → Option QUrl} {activity' : Activity}
    (h : s.Kept url activity screen) (hw : s.Within known) (ha : s.mapper.Addable screenId activity')
    (hremoved : s.removed (screenId, activity') ∈ [none, some screenUrl])
    (heq : removed = Function.update s.removed (screenId, activity') none) :
    Kept ⟨s.mapper.addScreen screenId activity' screenUrl, removed⟩ url activity screen := by
  subst heq
  cases h
  case mapped hl hn =>
    refine .mapped ?_ fun i hu => hn i ((mem_itemsOn_addScreen ha).mp hu).1
    apply (lookup_addScreen_of_not_givesBack hw.mapped hw.stored hw.limit ha _).trans hl
    exact fun heq hg => hn screenId (heq ▸ hg.1)
  case stored screenUrl' hl hs hr hb =>
    by_cases hpair : (screen, activity) = (screenId, activity')
    case pos =>
      cases hpair
      have hpath : screenUrl = screenUrl' := by simpa [hr, eq_comm] using hremoved
      subst hpath
      refine .mapped ?_ fun i hu => ?_
      · exact lookup_addScreen_of_givesBack hw.mapped hw.stored hw.limit ha ⟨(hs screenId).mpr rfl, hb⟩
      · have ⟨hu, hn⟩ := (mem_itemsOn_addScreen ha).mp hu
        exact hn ⟨by rw [(hs i).mp hu], hb⟩
    case neg =>
      refine .stored screenUrl' ?_ (fun i => ?_) ((Function.update_of_ne hpair _ _).trans hr) hb
      · apply (lookup_addScreen_of_not_givesBack hw.mapped hw.stored hw.limit ha _).trans hl
        exact fun heq hg => hpair (by rw [(hs screenId).mp (heq ▸ hg.1), heq])
      · rw [mem_itemsOn_addScreen ha, hs i]
        exact and_iff_left_of_imp fun hi heq => hpair (hi ▸ heq.1)

theorem Kept.step (h : s.Kept url activity screen) (hw : s.Within known) (hp : s.Parted)
    (hs : s.step event = some s') :
    (s.Keeps (· = (url, activity)) event → s'.Kept url activity screen) ∧
      (¬s.Keeps (· = (url, activity)) event → s'.Lost url activity) := by
  cases step_cases hs
  case inl he =>
    have ⟨_, _, _, hevent, hr, heq⟩ := he
    subst hevent heq
    exact h.removeScreen hr hp rfl
  case inr he =>
    cases he
    case inl he =>
      have ⟨_, _, _, hevent, ha, hremoved, heq⟩ := he
      subst hevent heq
      exact ⟨fun _ => h.addScreen hw ha hremoved rfl, fun hk => absurd trivial hk⟩
    case inr he =>
      have ⟨heq, hk⟩ := he
      exact ⟨fun _ => heq ▸ h, fun hn => absurd (hk _) hn⟩

variable {events : List (ScreenEvent QUrl)} {items : QUrl × Activity → Prop}

theorem Lost.run (h : s.Lost url activity) (hw : s.Within known) (hr : s.run events = some s') :
    s'.Lost url activity := by
  induction events generalizing s
  case nil =>
    cases hr
    exact h
  case cons event events ih =>
    have ⟨_, hs, hr⟩ := Option.bind_eq_some_iff.mp (List.foldlM_cons.symm.trans hr)
    exact ih (h.step hw hs) (hw.step hs) hr

theorem Kept.run (h : s.Kept url activity screen) (hw : s.Within known) (hp : s.Parted)
    (hr : s.run events = some s') :
    (s.KeepsAll (· = (url, activity)) events → s'.Kept url activity screen) ∧
      (¬s.KeepsAll (· = (url, activity)) events → s'.Lost url activity) := by
  induction events generalizing s
  case nil =>
    cases hr
    exact ⟨fun _ => h, fun hk => absurd trivial hk⟩
  case cons event events ih =>
    have ⟨s₁, hs, hr⟩ := Option.bind_eq_some_iff.mp (List.foldlM_cons.symm.trans hr)
    have ⟨hkept, hlost⟩ := h.step hw hp hs
    by_cases hk : s.Keeps (· = (url, activity)) event
    case pos =>
      have ⟨hkept, hlost⟩ := ih (hkept hk) (hw.step hs) (hp.step hs) hr
      refine ⟨fun hall => hkept (hall.2 s₁ hs), fun hall => hlost fun hrest => hall ⟨hk, fun s₂ hs₂ => ?_⟩⟩
      cases hs.symm.trans hs₂
      exact hrest
    case neg =>
      exact ⟨fun hall => absurd hall.1 hk, fun _ => (hlost hk).run (hw.step hs) hr⟩

omit [DecidableEq QUrl] in
theorem keeps_iff : s.Keeps items event ↔ ∀ key, items key → s.Keeps (· = key) event := by
  cases event
  case removeScreen =>
    constructor
    case mp =>
      intro h key hk hr url hu heq
      exact h hr url hu (heq ▸ hk)
    case mpr => exact fun h hr url hu hi => h _ hi hr url hu rfl
  case addScreen => exact ⟨fun _ _ _ => trivial, fun _ => trivial⟩

theorem keepsAll_iff : s.KeepsAll items events ↔ ∀ key, items key → s.KeepsAll (· = key) events := by
  induction events generalizing s
  case nil => exact ⟨fun _ _ _ => trivial, fun _ => trivial⟩
  case cons event events ih =>
    constructor
    case mp =>
      intro ⟨hk, hall⟩ key hkey
      exact ⟨keeps_iff.mp hk key hkey, fun s' hs => ih.mp (hall s' hs) key hkey⟩
    case mpr =>
      intro h
      refine ⟨keeps_iff.mpr fun key hkey => (h key hkey).1, fun s' hs => ih.mpr fun key hkey => ?_⟩
      exact (h key hkey).2 s' hs

-- An item that is kept is mapped once no screen is missing.
theorem Kept.lookup (h : s.Kept url activity screen) (hr : ∀ pair, s.removed pair = none) :
    s.mapper.screenItemMap.lookup (url, activity) = some screen := by
  cases h
  case mapped hl _ => exact hl
  case stored hremoved _ => exact absurd (hremoved.symm.trans (hr _)) (Option.some_ne_none _)

-- From a state in which no item that is mapped is stored for its activity, every item comes back if and only if
-- none is found on a disabled screen when its own screen is removed.
theorem items_return_iff {mapper : ScreenMapper QUrl}
    (hstored : ∀ key ∈ mapper.screenItemMap, ∀ i, key.1 ∉ itemsOn mapper.itemsOnDisabledScreensMap (i, key.2))
    (hw : Within ⟨mapper, fun _ => none⟩ known) (hr : run ⟨mapper, fun _ => none⟩ events = some s')
    (hremoved : ∀ pair, s'.removed pair = none) :
    (∀ key screen, mapper.screenItemMap.lookup key = some screen → s'.mapper.screenItemMap.lookup key = some screen) ↔
      KeepsAll (· ∈ mapper.screenItemMap) ⟨mapper, fun _ => none⟩ events := by
  have hp : Parted ⟨mapper, fun _ => none⟩ := fun _ _ => rfl
  have hkept : ∀ key screen, mapper.screenItemMap.lookup key = some screen →
      Kept ⟨mapper, fun _ => none⟩ key.1 key.2 screen :=
    fun key screen hl => .mapped hl (hstored key (Hash.mem_iff.mpr ⟨screen, hl⟩))
  rw [keepsAll_iff]
  constructor
  case mp =>
    intro h key hkey
    have ⟨screen, hl⟩ := Hash.mem_iff.mp hkey
    by_contra hlost
    have hlost := ((hkept key screen hl).run hw hp hr).2 hlost
    exact Option.some_ne_none _ ((h key screen hl).symm.trans hlost.lookup)
  case mpr =>
    intro h key screen hl
    exact (((hkept key screen hl).run hw hp hr).1 (h key (Hash.mem_iff.mpr ⟨screen, hl⟩))).lookup hremoved

end Session

-- Two activities map the same item to the same screen.
def bothActivities : ScreenMapper String :=
  let s := addScreen (addScreen {} 0 "A" "/") 0 "B" "/"
  (s.addMapping "/a" 0 "A").addMapping "/a" 0 "B"

namespace Session

theorem bothActivities_stored (pair : Int × Activity) (url : String) :
    url ∉ itemsOn bothActivities.itemsOnDisabledScreensMap pair :=
  QSet.notMem_empty

theorem bothActivities_within : Within ⟨bothActivities, fun _ => none⟩ [("/a", "A"), ("/a", "B")] where
  mapped := by
    have h : ∀ key ∈ bothActivities.screenItemMap.keys, key ∈ [("/a", "A"), ("/a", "B")] := by decide
    exact h
  stored pair url hu := absurd hu (bothActivities_stored pair url)
  limit := by decide

-- The screen is removed and added for one activity after the other.
def inTurn : List (ScreenEvent String) :=
  [.removeScreen 0 "A" "/", .addScreen 0 "A" "/", .removeScreen 0 "B" "/", .addScreen 0 "B" "/"]

theorem items_return_inTurn : ∃ s', run ⟨bothActivities, fun _ => none⟩ inTurn = some s' ∧
    ∀ key screen, bothActivities.screenItemMap.lookup key = some screen →
      s'.mapper.screenItemMap.lookup key = some screen := by
  have hr : run ⟨bothActivities, fun _ => none⟩ inTurn = some _ := rfl
  refine ⟨_, hr, (items_return_iff (fun _ _ _ => bothActivities_stored _ _) bothActivities_within hr ?_).mpr ?_⟩
  · intro pair
    simp +contextual [Function.update_apply]
  · decide

-- The item that is stored for the first activity is not stored for the second.
theorem items_return_bothActivities : ∃ s', run ⟨bothActivities, fun _ => none⟩
    [.removeScreen 0 "A" "/", .removeScreen 0 "B" "/", .addScreen 0 "A" "/", .addScreen 0 "B" "/"] = some s' ∧
      (∀ pair, s'.removed pair = none) ∧ bothActivities.screenItemMap.lookup ("/a", "B") = some 0 ∧
      s'.mapper.screenItemMap.lookup ("/a", "B") = none := by
  refine ⟨_, rfl, fun pair => ?_, rfl, rfl⟩
  simp +contextual [Function.update_apply]

end Session
end ScreenMapper
