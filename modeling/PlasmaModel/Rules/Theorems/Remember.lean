import PlasmaModel.Lib.Hash
import PlasmaModel.Rules.RuleBook

namespace KWin

variable {locale : Locale} {p : RememberFlag}

abbrev RememberFlag.Value : RememberFlag → Type
  | position => QPoint
  | size => QSize
  | screen => Int
  | desktops | activity => List String
  | desktopFile => String
  | _ => Bool

namespace Rules

def property (r : Rules) : (p : RememberFlag) → SetProperty p.Value
  | .position => r.position
  | .size => r.size
  | .desktops => r.desktops
  | .screen => r.screen
  | .activity => r.activity
  | .maximizeVert => r.maximizevert
  | .maximizeHoriz => r.maximizehoriz
  | .minimize => r.minimize
  | .skipTaskbar => r.skiptaskbar
  | .skipPager => r.skippager
  | .skipSwitcher => r.skipswitcher
  | .above => r.above
  | .below => r.below
  | .fullscreen => r.fullscreen
  | .noBorder => r.noborder
  | .desktopFile => r.desktopfile

-- What is remembered of a window after the value that is remembered so far.
def Window.remembered (c : Window) : (p : RememberFlag) → p.Value → p.Value
  | .position => newPosition c
  | .size => newSize c
  | .desktops => fun _ => c.desktopIds
  | .screen => fun _ => c.output
  | .activity => fun _ => c.activities
  | .maximizeVert => fun _ => c.maximizeVertical
  | .maximizeHoriz => fun _ => c.maximizeHorizontal
  | .minimize => fun _ => c.isMinimized
  | .skipTaskbar => fun _ => c.skipTaskbar
  | .skipPager => fun _ => c.skipPager
  | .skipSwitcher => fun _ => c.skipSwitcher
  | .above => fun _ => c.keepAbove
  | .below => fun _ => c.keepBelow
  | .fullscreen => fun _ => c.isFullScreen
  | .noBorder => fun _ => c.noBorder
  | .desktopFile => fun _ => c.desktopFileName

variable {r : Rules}

theorem property_update {c : Window} {selection : RememberFlag → Bool} :
    (r.update c selection).property p = nowRemember (selection p) (r.property p) (c.remembered p) := by
  cases p <;> rfl

end Rules

def RuleSettings.setting (settings : RuleSettings) : (p : RememberFlag) → SetSetting p.Value
  | .position => settings.position
  | .size => settings.size
  | .desktops => settings.desktops
  | .screen => settings.screen
  | .activity => settings.activity
  | .maximizeVert => settings.maximizevert
  | .maximizeHoriz => settings.maximizehoriz
  | .minimize => settings.minimize
  | .skipTaskbar => settings.skiptaskbar
  | .skipPager => settings.skippager
  | .skipSwitcher => settings.skipswitcher
  | .above => settings.above
  | .below => settings.below
  | .fullscreen => settings.fullscreen
  | .noBorder => settings.noborder
  | .desktopFile => settings.desktopfile

theorem Rules.readFromSettings_value (settings : RuleSettings) :
    ((readFromSettings locale settings).property p).value = (settings.setting p).value := by
  cases p with
  | size =>
    simp only [readFromSettings, property, readSize]
    split <;> rfl
  | _ => rfl

namespace RuleBook

variable {b : RuleBook} {r r' : Rules}

def Update.apply (r : Rules) (u : Update) : Rules :=
  if r.id ∈ u.ids then r.update u.window u.selection else r

-- The value that is remembered last of the windows that the rule with the id is for, and `value` if there is none.
def lastRemembered (p : RememberFlag) (id : String) (us : List Update) (value : p.Value) : p.Value :=
  us.foldl (fun value u => if id ∈ u.ids ∧ u.selection p then u.window.remembered p value else value) value

theorem rules_updates (us : List Update) : (us.foldl update b).rules = b.rules.map (us.foldl Update.apply) := by
  induction us generalizing b
  case nil => simp
  case cons u us ih => simp only [List.foldl_cons, ih, update, List.map_map, Function.comp_def, Update.apply]

theorem book_updates (us : List Update) :
    (us.foldl update b).book = b.book ∧ (us.foldl update b).config = b.config := by
  induction us generalizing b
  case nil => exact ⟨rfl, rfl⟩
  case cons u us ih => exact ih

theorem Update.id_apply (u : Update) : (Update.apply r u).id = r.id := by
  rw [Update.apply]
  split <;> rfl

theorem Update.enabled_apply (u : Update) : (Update.apply r u).enabled = r.enabled := by
  rw [Update.apply]
  split <;> rfl

theorem Update.property_apply (u : Update) (h : (r.property p).rule = .remember) :
    (Update.apply r u).property p =
      ⟨.remember, if r.id ∈ u.ids ∧ u.selection p then u.window.remembered p (r.property p).value
        else (r.property p).value⟩ := by
  have hp : r.property p = ⟨.remember, (r.property p).value⟩ := h ▸ rfl
  rw [Update.apply]
  split
  case isTrue hm =>
    rw [Rules.property_update, Rules.nowRemember, h]
    simp only [decide_true, Bool.and_true, hm, true_and]
    split
    case isTrue => rfl
    case isFalse => exact hp
  case isFalse hm => rw [if_neg fun hc => hm hc.1, ← hp]

theorem property_updates (us : List Update) (h : (r.property p).rule = .remember) :
    (us.foldl Update.apply r).property p = ⟨.remember, lastRemembered p r.id us (r.property p).value⟩ := by
  induction us generalizing r
  case nil => exact h ▸ rfl
  case cons u us ih =>
    have hu := u.property_apply h
    rw [List.foldl_cons, ih (by rw [hu]), u.id_apply, hu]
    rfl

theorem readRuleGroupList_save {book : RuleBookSettings} (h : b.book = some book) (storedGroups : List String) :
    b.save.config.readRuleGroupList storedGroups = b.save.config := by
  rw [RuleConfig.readRuleGroupList, if_neg]
  simp only [save, h, RuleBookSettings.ruleGroupList, Bool.and_eq_true, decide_eq_true_eq]
  intro ⟨hl, hc⟩
  rw [List.map_eq_nil_iff.mp hl] at hc
  exact Nat.lt_irrefl 0 hc

theorem ruleSettings_save {book : RuleBookSettings} (h : b.book = some book) {settings : RuleSettings}
    (hs : settings ∈ book.list) : b.save.config.ruleSettings settings.currentGroup = settings := by
  have hl : b.save.config.groups.lookup settings.currentGroup = some settings := by
    have hm : settings.currentGroup ∈ book.ruleGroupList := List.mem_map_of_mem hs
    simp only [save, h, usrSave]
    rw [Hash.lookup_foldl_erase_of_notMem (by simp [hm])]
    exact Hash.lookup_foldl_insert_of_mem book.nodup hs
  rw [RuleConfig.ruleSettings, hl, Option.getD_some]

theorem list_save_load {book : RuleBookSettings} (h : b.book = some book) :
    (RuleBookSettings.usrRead b.save.config).list = book.list := by
  have hg : b.save.config.ruleGroupList = book.list.map (·.currentGroup) := by
    simp only [save, h, RuleBookSettings.ruleGroupList]
  change b.save.config.ruleGroupList.map b.save.config.ruleSettings = book.list
  rw [hg, List.map_map]
  exact (List.map_congr_left fun settings hs => ruleSettings_save h hs).trans (List.map_id _)

theorem rules_save_load {book : RuleBookSettings} (h : b.book = some book) :
    (b.save.load locale).rules = book.rules locale := by
  rw [load, readRuleGroupList_save h]
  simp only [RuleBookSettings.rules, list_save_load h]

-- Each of the rules has its settings in the book, from which it is read again.
structure Stored (book : RuleBookSettings) (rules : List Rules) : Prop where
  nodup    : (rules.map (·.id)).Nodup
  settings : ∀ r ∈ rules, ∃ settings ∈ book.list, settings.currentGroup = r.id ∧ settings.enabled
  enabled  : ∀ r ∈ rules, r.enabled

def Paired (b : RuleBook) : Prop :=
  match b.book with
  | none => b.rules = []
  | some book => Stored book b.rules

theorem mem_rules_iff {book : RuleBookSettings} : r ∈ book.rules locale ↔
    ∃ settings ∈ book.list, settings.enabled ∧ Rules.readFromSettings locale settings = r := by
  simp only [RuleBookSettings.rules, List.mem_map, List.mem_filter, and_assoc]

theorem settings_unique {book : RuleBookSettings} {s s' : RuleSettings} (hs : s ∈ book.list) (hs' : s' ∈ book.list)
    (h : s.currentGroup = s'.currentGroup) : s = s' :=
  List.inj_on_of_nodup_map book.nodup hs hs' h

theorem Paired.stored (h : b.Paired) (hr : r ∈ b.rules) : ∃ book, b.book = some book ∧ Stored book b.rules := by
  rw [Paired] at h
  split at h
  case h_1 => simp [h] at hr
  case h_2 book hbook => exact ⟨book, hbook, h⟩

theorem remembered_iff {us : List Update} (hb : b.Paired) (hr : r ∈ b.rules) :
    (∃ r' ∈ ((us.foldl update b).save.load locale).rules, r'.id = r.id ∧
      (r'.property p).value = lastRemembered p r.id us (r.property p).value) ↔
    ∃ book ∈ b.book, ∃ settings ∈ book.list, settings.currentGroup = r.id ∧
      (settings.setting p).value = lastRemembered p r.id us (r.property p).value := by
  have ⟨book, hbook, hb⟩ := hb.stored hr
  have ⟨settings, hs, hg, he⟩ := hb.settings r hr
  rw [rules_save_load ((book_updates us).1.trans hbook)]
  constructor
  case mp =>
    intro ⟨r', hr', hid, hv⟩
    have ⟨settings', hs', _, heq⟩ := mem_rules_iff.mp hr'
    subst heq
    rw [Rules.readFromSettings_value] at hv
    exact ⟨book, hbook, settings', hs', hid, hv⟩
  case mpr =>
    intro ⟨book', hbook', settings', hs', hg', hv⟩
    cases Option.mem_unique hbook hbook'
    cases settings_unique hs hs' (hg.trans hg'.symm)
    refine ⟨_, mem_rules_iff.mpr ⟨settings, hs, he, rfl⟩, hg, ?_⟩
    rw [Rules.readFromSettings_value, hv]

theorem Stored.update {book : RuleBookSettings} {rules : List Rules} {u : Update} (h : Stored book rules) :
    Stored book (rules.map (Update.apply · u)) where
  nodup := by
    have hid : (rules.map (Update.apply · u)).map (·.id) = rules.map (·.id) := by
      rw [List.map_map]
      exact List.map_congr_left fun r _ => u.id_apply
    exact hid ▸ h.nodup
  settings r hr := by
    have ⟨r', hr', heq⟩ := List.mem_map.mp hr
    have ⟨settings, hs, hg, he⟩ := h.settings r' hr'
    exact ⟨settings, hs, hg.trans (heq ▸ (@Update.id_apply r' u).symm), he⟩
  enabled r hr := by
    have ⟨r', hr', heq⟩ := List.mem_map.mp hr
    exact heq ▸ u.enabled_apply.trans (h.enabled r' hr')

theorem Paired.update {u : Update} (h : b.Paired) : (b.update u).Paired := by
  rw [Paired] at h
  rw [Paired, RuleBook.update]
  cases hbook : b.book with
  | none =>
    rw [hbook] at h
    exact List.map_eq_nil_iff.mpr h
  | some book =>
    rw [hbook] at h
    exact h.update

theorem load_paired : (b.load locale).Paired where
  nodup := by
    simp only [load, RuleBookSettings.rules, List.map_map]
    exact (RuleBookSettings.usrRead _).nodup.sublist (List.filter_sublist.map _)
  settings r hr := by
    have ⟨settings, hs, he, heq⟩ := mem_rules_iff.mp hr
    exact ⟨settings, hs, congrArg Rules.id heq, he⟩
  enabled r hr := by
    have ⟨settings, _, he, heq⟩ := mem_rules_iff.mp hr
    exact heq ▸ he

theorem Paired.save (h : b.Paired) : b.save.Paired := by
  rw [RuleBook.save]
  split
  case h_1 => exact h
  case h_2 book hbook =>
    rw [Paired, hbook] at h
    exact ⟨h.nodup, h.settings, h.enabled⟩

section Discard

variable {book : RuleBookSettings} {rules rest : List Rules} {settings : RuleSettings} {row : Nat}

theorem currentGroup_of_indexForId {id : String} (h : book.indexForId id = some row) (hs : book.list[row]? = some settings) :
    settings.currentGroup = id := by
  have ⟨hlt, hid, _⟩ := List.findIdx?_eq_some_iff_getElem.mp h
  rw [List.getElem?_eq_getElem hlt, Option.some_inj] at hs
  exact hs ▸ of_decide_eq_true hid

theorem mem_write_of_ne (h : book.indexForId r.id = some row) (hs : settings ∈ book.list)
    (hne : settings.currentGroup ≠ r.id) : settings ∈ (book.writeRuleSettingsAt row r').list := by
  have ⟨j, hj⟩ := List.getElem?_of_mem hs
  have hij : row ≠ j := fun heq => hne (currentGroup_of_indexForId h (heq ▸ hj))
  exact List.mem_of_getElem? ((List.getElem?_modify_ne r'.write book.list hij).trans hj)

theorem mem_remove_of_ne (h : book.indexForId r.id = some row) (hs : settings ∈ book.list)
    (hne : settings.currentGroup ≠ r.id) : settings ∈ (book.removeRuleSettingsAt row).list := by
  have ⟨j, hj⟩ := List.getElem?_of_mem hs
  have hij : j ≠ row := fun heq => hne (currentGroup_of_indexForId h (heq ▸ hj))
  exact List.mem_eraseIdx_iff_getElem?.mpr ⟨j, hij, hj⟩

theorem mem_write (h : book.indexForId r.id = some row) :
    ∃ settings ∈ (book.writeRuleSettingsAt row r').list, settings.currentGroup = r.id ∧
      settings.enabled = r'.enabled := by
  have ⟨hlt, hid, _⟩ := List.findIdx?_eq_some_iff_getElem.mp h
  have hget : (book.list.modify row r'.write)[row]? = some (r'.write book.list[row]) := by
    rw [List.getElem?_modify_eq, List.getElem?_eq_getElem hlt]
    rfl
  exact ⟨_, List.mem_of_getElem? hget, of_decide_eq_true hid, rfl⟩

theorem indexForId_write {id : String} : (book.writeRuleSettingsAt row r').indexForId id = book.indexForId id := by
  have h (book : RuleBookSettings) : book.indexForId id = book.ruleGroupList.findIdx? (· = id) := by
    rw [RuleBookSettings.ruleGroupList, List.findIdx?_map]
    rfl
  rw [h, h, RuleBookSettings.ruleGroupList, RuleBookSettings.writeRuleSettingsAt, RuleBookSettings.map_modify_write]
  rfl

namespace Stored

theorem write (h : Stored book (rules ++ r :: rest)) (hrow : book.indexForId r.id = some row) (hid : r'.id = r.id)
    (he : r'.enabled) : Stored (book.writeRuleSettingsAt row r') (rules ++ r' :: rest) where
  nodup := by simpa [hid] using h.nodup
  settings x hx := by
    if hxid : x.id = r.id then
      have ⟨settings, hs, hg, hse⟩ := @mem_write _ r' _ _ hrow
      exact ⟨settings, hs, hg.trans hxid.symm, hse.trans he⟩
    else
      have hx : x ∈ rules ++ r :: rest := by
        have hne : x ≠ r' := fun heq => hxid (heq ▸ hid)
        simp only [List.mem_append, List.mem_cons] at hx ⊢
        tauto
      have ⟨settings, hs, hg, hse⟩ := h.settings x hx
      exact ⟨settings, mem_write_of_ne hrow hs (hg ▸ hxid), hg, hse⟩
  enabled x hx := by
    have := h.enabled x
    simp only [List.mem_append, List.mem_cons] at hx this
    grind

theorem remove (h : Stored book (rules ++ r :: rest)) (hrow : book.indexForId r.id = some row) :
    Stored (book.removeRuleSettingsAt row) (rules ++ rest) := by
  have hsub := ((List.sublist_cons_self r rest).append_left rules).subset
  refine ⟨h.nodup.sublist (((List.sublist_cons_self r rest).append_left rules).map _), fun x hx => ?_, fun x hx =>
    h.enabled x (hsub hx)⟩
  · have hxid : x.id ≠ r.id := by
      have hn := h.nodup
      simp only [List.map_append, List.map_cons, List.nodup_append, List.nodup_cons] at hn
      cases List.mem_append.mp hx
      case inl hx => exact hn.2.2 _ (List.mem_map_of_mem hx) _ List.mem_cons_self
      case inr hx => exact fun heq => hn.2.1.1 (heq ▸ List.mem_map_of_mem hx)
    have ⟨settings, hs, hg, hse⟩ := h.settings x (hsub hx)
    exact ⟨settings, mem_remove_of_ne hrow hs (hg ▸ hxid), hg, hse⟩

theorem index (h : Stored book rules) (hr : r ∈ rules) : ∃ row, book.indexForId r.id = some row := by
  have ⟨settings, hs, hg, _⟩ := h.settings r hr
  rw [← Option.isSome_iff_exists, RuleBookSettings.indexForId, List.findIdx?_isSome, List.any_eq_true]
  exact ⟨settings, hs, decide_eq_true hg⟩

theorem discardRule {ids : List String} {withdrawn : Bool} (h : Stored book (rules ++ r :: rest)) :
    Stored (discardRule ids withdrawn (book, rules) r).1 ((discardRule ids withdrawn (book, rules) r).2 ++ rest) := by
  have ⟨row, hrow⟩ := h.index (r := r) (by simp)
  rw [RuleBook.discardRule]
  split
  case isFalse => simpa using h
  case isTrue =>
    have he : (r.discardUsed withdrawn).enabled := h.enabled r (by simp)
    simp only [hrow, Option.elim_some]
    have hw : Stored (if r.discardsUsed withdrawn then book.writeRuleSettingsAt row (r.discardUsed withdrawn) else book)
        (rules ++ r.discardUsed withdrawn :: rest) := by
      split
      case isTrue => exact h.write hrow rfl he
      case isFalse hd =>
        have heq : r.discardUsed withdrawn = r := by simpa [Rules.discardsUsed] using hd
        exact heq.symm ▸ h
    have hi : (if r.discardsUsed withdrawn then book.writeRuleSettingsAt row (r.discardUsed withdrawn)
        else book).indexForId (r.discardUsed withdrawn).id = some row := by
      split
      case isTrue => exact indexForId_write.trans hrow
      case isFalse => exact hrow
    split
    case isTrue => exact hw.remove hi
    case isFalse => simpa using hw

theorem discardRules {ids : List String} {withdrawn : Bool} {kept : RuleBookSettings × List Rules}
    (h : Stored kept.1 (kept.2 ++ rest)) :
    Stored (rest.foldl (RuleBook.discardRule ids withdrawn) kept).1
      (rest.foldl (RuleBook.discardRule ids withdrawn) kept).2 := by
  induction rest generalizing kept
  case nil => simpa using h
  case cons r rest ih => exact ih h.discardRule

end Stored

end Discard

theorem Paired.discardUsed {ids : List String} {withdrawn : Bool} (h : b.Paired) :
    (b.discardUsed ids withdrawn).Paired := by
  rw [RuleBook.discardUsed]
  split
  case h_1 => exact h
  case h_2 book hbook =>
    rw [Paired, hbook] at h
    have h : Stored (book, ([] : List Rules)).1 ((book, ([] : List Rules)).2 ++ b.rules) := h
    exact h.discardRules

theorem paired_of_events (events : List Event) (h : b.Paired) : (events.foldl (step locale) b).Paired := by
  induction events generalizing b
  case nil => exact h
  case cons event events ih =>
    apply ih
    cases event with
    | load => exact load_paired
    | save => exact h.save
    | discardUsed => exact h.discardUsed
    | update => exact h.update

-- A rule book that has gone through the events since it was made for the configuration.
theorem remembered_value_iff (config : RuleConfig) (events : List Event) (us : List Update)
    (hr : r ∈ (events.foldl (step locale) { config := config }).rules) (hp : (r.property p).rule = .remember) :
    let b := events.foldl (step locale) { config := config }
    us.foldl Update.apply r ∈ (us.foldl update b).rules ∧
    ((us.foldl Update.apply r).property p).value = lastRemembered p r.id us (r.property p).value ∧
    ((∃ r' ∈ ((us.foldl update b).save.load locale).rules, r'.id = r.id ∧
        (r'.property p).value = lastRemembered p r.id us (r.property p).value) ↔
      ∃ book ∈ b.book, ∃ settings ∈ book.list, settings.currentGroup = r.id ∧
        (settings.setting p).value = lastRemembered p r.id us (r.property p).value) := by
  intro b
  refine ⟨?_, ?_, remembered_iff (paired_of_events events rfl) hr⟩
  · rw [rules_updates]
    exact List.mem_map_of_mem hr
  · rw [property_updates us hp]

def plainLocale : Locale where
  toLower := fun s => s
  locate := fun _ => ""
  toLower_toLower _ := rfl

def minimizeSettings : RuleSettings :=
  { currentGroup := "1", minimize := { value := false, rule := .set 0 6 SetRule.remember.toInt } }

def minimizeConfig : RuleConfig where
  ruleGroupList := ["1"]
  nodup := List.nodup_singleton "1"
  groups := (∅ : AList fun _ : String => RuleSettings).insert "1" minimizeSettings

def minimizedWindow : Rules.Window where
  pos := ⟨0, 0⟩
  size := ⟨640, 480⟩
  maximizeVertical := false
  maximizeHorizontal := false
  isFullScreen := false
  desktopIds := []
  output := 0
  activities := []
  isMinimized := true
  skipTaskbar := false
  skipPager := false
  skipSwitcher := false
  keepAbove := false
  keepBelow := false
  noBorder := false
  desktopFileName := ""

def minimizedUpdate : Update where
  window := minimizedWindow
  ids := ["1"]
  selection := (· = .minimize)

theorem remembered_value_minimize :
    (∃ r' ∈ ((([minimizedUpdate].foldl update
          ([Event.load].foldl (step plainLocale) { config := minimizeConfig })).save).load plainLocale).rules,
        r'.id = "1" ∧ (r'.property .minimize).value = lastRemembered .minimize "1" [minimizedUpdate] false) ↔
      ∃ book ∈ ([Event.load].foldl (step plainLocale) { config := minimizeConfig }).book,
        ∃ settings ∈ book.list, settings.currentGroup = "1" ∧
          (settings.setting .minimize).value = lastRemembered .minimize "1" [minimizedUpdate] false :=
  have hr : Rules.readFromSettings plainLocale minimizeSettings ∈
      ([Event.load].foldl (step plainLocale) { config := minimizeConfig }).rules := List.mem_singleton.mpr rfl
  (remembered_value_iff minimizeConfig [.load] [minimizedUpdate] hr rfl).2.2

-- The window is minimized, and after a restart the rule says that it is not.
theorem not_remembered_minimize :
    ¬∃ r ∈ ((update (load plainLocale { config := minimizeConfig }) minimizedUpdate).save.load plainLocale).rules,
      r.id = "1" ∧ (r.property .minimize).value = lastRemembered .minimize "1" [minimizedUpdate] false := by
  decide

end RuleBook
end KWin
