import PlasmaModel.Rules.RuleBook

namespace KWin

variable {locale : Locale} {r r' : Rules} {α β : Type}

theorem SetRule.ofInt_toInt (rule : SetRule) : ofInt rule.toInt = rule := by
  cases rule <;> rfl

theorem convertForceRule_toInt (rule : ForceRule) : convertForceRule rule.toInt = rule := by
  cases rule <;> rfl

theorem StringMatch.ofInt_toInt (type : StringMatch) : ofInt type.toInt = type := by
  cases type <;> rfl

theorem BoolMatch.ofInt_toInt (type : BoolMatch) : ofInt type.toInt = type := by
  cases type <;> rfl

theorem FocusStealingPreventionLevel.ofInt_toInt (level : FocusStealingPreventionLevel) :
    ofInt level.toInt = level := by
  cases level <;> rfl

theorem Bounded.value_set {min max v : Int} {h : min ≤ max} (hmin : min ≤ v) (hmax : v ≤ max) :
    (set min max v h).value = v := by
  rw [set, dif_neg (Int.not_lt.mpr hmin), dif_neg (Int.not_lt.mpr hmax)]

theorem SetRule.value_set (rule : SetRule) : (Bounded.set 0 6 rule.toInt).value = rule.toInt := by
  apply Bounded.value_set <;> cases rule <;> decide

theorem StringMatch.value_set (type : StringMatch) : (Bounded.set 0 3 type.toInt).value = type.toInt := by
  apply Bounded.value_set <;> cases type <;> decide

theorem BoolMatch.value_set (type : BoolMatch) : (Bounded.set 0 1 type.toInt).value = type.toInt := by
  apply Bounded.value_set <;> cases type <;> decide

theorem FocusStealingPreventionLevel.value_set (level : FocusStealingPreventionLevel) :
    (Bounded.set 0 4 level.toInt).value = level.toInt := by
  apply Bounded.value_set <;> cases level <;> decide

theorem FocusStealingPreventionLevel.ofInt_set (level : FocusStealingPreventionLevel) :
    ofInt (Bounded.set 0 4 level.toInt).value = level := by
  rw [value_set, ofInt_toInt]

-- The values of a property are the same unless its rule is unused.
structure SetProperty.Same (p p' : SetProperty α) : Prop where
  rule  : p'.rule = p.rule
  value : p.rule ≠ .unused → p'.value = p.value

structure ForceProperty.Same (p p' : ForceProperty α) : Prop where
  rule  : p'.rule = p.rule
  value : p.rule ≠ .unused → p'.value = p.value

theorem MatchSetting.readWith_write {func : String → String} {criterion : MatchString} {force : Bool}
    (h : func criterion.string = criterion.string) :
    (({} : MatchSetting).write criterion force).readWith func = criterion := by
  have hs : (({} : MatchSetting).write criterion force).string = criterion.string := by
    rw [write]
    split
    case isTrue => rfl
    case isFalse he => simp_all
  rw [readWith, hs, h]
  simp only [write, StringMatch.value_set, StringMatch.ofInt_toInt]

theorem MatchSetting.read_write {criterion : MatchString} {force : Bool} :
    (({} : MatchSetting).write criterion force).read = criterion :=
  readWith_write rfl

theorem SetSetting.read_write (setting : SetSetting α) (p : SetProperty α) : p.Same (setting.write p).read where
  rule := by simp only [read, write, SetRule.value_set, SetRule.ofInt_toInt]
  value h := by simp only [read, write, if_pos h]

theorem ForceSetting.readWith_writeWith (setting : ForceSetting β) (p : ForceProperty α) {f : α → β} {g : β → α}
    (h : p.rule ≠ .unused → g (f p.value) = p.value) : p.Same ((setting.writeWith p f).readWith g) where
  rule := by simp only [readWith, writeWith, convertForceRule_toInt]
  value hr := by simp only [readWith, writeWith, if_pos hr, h hr]

theorem ForceSetting.read_write (setting : ForceSetting α) (p : ForceProperty α) : p.Same (setting.write p).read :=
  readWith_writeWith setting p fun _ => rfl

theorem SetProperty.discardUsed_eq {p : SetProperty α} {withdrawn : Bool}
    (h : (SetProperty.discardUsed withdrawn p).rule ≠ .unused) : SetProperty.discardUsed withdrawn p = p := by
  rw [SetProperty.discardUsed] at h ⊢
  split at h <;> simp_all

theorem ForceProperty.discardUsed_eq {p : ForceProperty α} {withdrawn : Bool}
    (h : (ForceProperty.discardUsed withdrawn p).rule ≠ .unused) : ForceProperty.discardUsed withdrawn p = p := by
  rw [ForceProperty.discardUsed] at h ⊢
  split at h <;> simp_all

theorem ForceProperty.discardUsed_value {p : ForceProperty α} {withdrawn : Bool} :
    (ForceProperty.discardUsed withdrawn p).value = p.value := by
  rw [ForceProperty.discardUsed]
  split <;> rfl

theorem ForceSetting.read_write_level (setting : ForceSetting (Bounded 0 4))
    (p : ForceProperty FocusStealingPreventionLevel) :
    p.Same ((setting.writeWith p (.set 0 4 ·.toInt)).readWith (.ofInt ·.value)) :=
  readWith_writeWith setting p fun _ => FocusStealingPreventionLevel.ofInt_set _

namespace Rules

-- The objects of the program: those that are read from settings, and what updates and discards make of them.
inductive Built (locale : Locale) : Rules → Prop
  | readFromSettings (settings : RuleSettings) : Built locale (readFromSettings locale settings)
  | update {r : Rules} (h : Built locale r) (c : Window) (selection : RememberFlag → Bool) :
      Built locale (r.update c selection)
  | discardUsed {r : Rules} (h : Built locale r) (withdrawn : Bool) : Built locale (r.discardUsed withdrawn)

structure Valid (locale : Locale) (r : Rules) : Prop where
  clientmachine   : locale.toLower r.clientmachine.string = r.clientmachine.string
  size            : r.size.rule ≠ .unused → r.size.rule ≠ .remember → ¬r.size.value.isEmpty
  minsize         : r.minsize.rule ≠ .unused → r.minsize.value.isValid
  maxsize         : r.maxsize.rule ≠ .unused → ¬r.maxsize.value.isEmpty
  opacityactive   : 0 ≤ r.opacityactive.value ∧ r.opacityactive.value ≤ 100
  opacityinactive : 0 ≤ r.opacityinactive.value ∧ r.opacityinactive.value ≤ 100
  decocolor       : r.decocolor.rule ≠ .unused → r.decocolor.value ≠ ""

theorem readFromSettings_valid (settings : RuleSettings) : (readFromSettings locale settings).Valid locale where
  clientmachine := locale.toLower_toLower _
  size hr hm := by
    simp only [readFromSettings, readSize] at hr hm ⊢
    grind
  minsize _ := by
    simp only [readFromSettings, readMinsize]
    grind [QSize.isValid]
  maxsize _ := by
    simp only [readFromSettings, readMaxsize]
    grind [QSize.isEmpty]
  opacityactive := ⟨settings.opacityactive.value.ge, settings.opacityactive.value.le⟩
  opacityinactive := ⟨settings.opacityinactive.value.ge, settings.opacityinactive.value.le⟩
  decocolor hr := by
    simp only [readFromSettings, readDecocolor] at hr ⊢
    grind [String.isEmpty_iff]

theorem Valid.update {c : Window} {selection : RememberFlag → Bool} (h : r.Valid locale) :
    (r.update c selection).Valid locale where
  clientmachine := h.clientmachine
  size hr hm := by
    simp only [Rules.update, nowRemember] at hr hm ⊢
    split at hr
    case isTrue => simp_all
    case isFalse => simp_all [h.size]
  minsize := h.minsize
  maxsize := h.maxsize
  opacityactive := h.opacityactive
  opacityinactive := h.opacityinactive
  decocolor := h.decocolor

theorem Valid.discardUsed {withdrawn : Bool} (h : r.Valid locale) : (r.discardUsed withdrawn).Valid locale where
  clientmachine := h.clientmachine
  size hr hm := by
    have heq : r.size.discardUsed withdrawn = r.size := SetProperty.discardUsed_eq hr
    simp only [Rules.discardUsed, heq] at hr hm ⊢
    exact h.size hr hm
  minsize hr := by
    have heq : r.minsize.discardUsed withdrawn = r.minsize := ForceProperty.discardUsed_eq hr
    simp only [Rules.discardUsed, heq] at hr ⊢
    exact h.minsize hr
  maxsize hr := by
    have heq : r.maxsize.discardUsed withdrawn = r.maxsize := ForceProperty.discardUsed_eq hr
    simp only [Rules.discardUsed, heq] at hr ⊢
    exact h.maxsize hr
  opacityactive := by
    simp only [Rules.discardUsed, ForceProperty.discardUsed_value]
    exact h.opacityactive
  opacityinactive := by
    simp only [Rules.discardUsed, ForceProperty.discardUsed_value]
    exact h.opacityinactive
  decocolor hr := by
    have heq : r.decocolor.discardUsed withdrawn = r.decocolor := ForceProperty.discardUsed_eq hr
    simp only [Rules.discardUsed, heq] at hr ⊢
    exact h.decocolor hr

theorem Built.valid (h : r.Built locale) : r.Valid locale := by
  induction h
  case readFromSettings => exact readFromSettings_valid _
  case update ih => exact ih.update
  case discardUsed ih => exact ih.discardUsed

structure SameMatch (r r' : Rules) : Prop where
  wmclass                 : r'.wmclass = r.wmclass
  wmclasscomplete         : r'.wmclasscomplete = r.wmclasscomplete
  windowrole              : r'.windowrole = r.windowrole
  title                   : r'.title = r.title
  clientmachine           : r'.clientmachine = r.clientmachine
  tag                     : r'.tag = r.tag
  hastransientparent      : r'.hastransientparent = r.hastransientparent
  hastransientparentmatch : r'.hastransientparentmatch = r.hastransientparentmatch
  types                   : r'.types = r.types

structure RoundTrips (r r' : Rules) : Prop extends SameMatch r r' where
  placement              : r.placement.Same r'.placement
  position               : r.position.Same r'.position
  size                   : r.size.Same r'.size
  minsize                : r.minsize.Same r'.minsize
  maxsize                : r.maxsize.Same r'.maxsize
  opacityactive          : r.opacityactive.Same r'.opacityactive
  opacityinactive        : r.opacityinactive.Same r'.opacityinactive
  ignoregeometry         : r.ignoregeometry.Same r'.ignoregeometry
  desktops               : r.desktops.Same r'.desktops
  screen                 : r.screen.Same r'.screen
  activity               : r.activity.Same r'.activity
  maximizevert           : r.maximizevert.Same r'.maximizevert
  maximizehoriz          : r.maximizehoriz.Same r'.maximizehoriz
  minimize               : r.minimize.Same r'.minimize
  skiptaskbar            : r.skiptaskbar.Same r'.skiptaskbar
  skippager              : r.skippager.Same r'.skippager
  skipswitcher           : r.skipswitcher.Same r'.skipswitcher
  above                  : r.above.Same r'.above
  below                  : r.below.Same r'.below
  fullscreen             : r.fullscreen.Same r'.fullscreen
  noborder               : r.noborder.Same r'.noborder
  decocolor              : r.decocolor.Same r'.decocolor
  blockcompositing       : r.blockcompositing.Same r'.blockcompositing
  fsplevel               : r.fsplevel.Same r'.fsplevel
  fpplevel               : r.fpplevel.Same r'.fpplevel
  acceptfocus            : r.acceptfocus.Same r'.acceptfocus
  closeable              : r.closeable.Same r'.closeable
  autogroup              : r.autogroup.Same r'.autogroup
  autogroupfg            : r.autogroupfg.Same r'.autogroupfg
  autogroupid            : r.autogroupid.Same r'.autogroupid
  strictgeometry         : r.strictgeometry.Same r'.strictgeometry
  shortcut               : r.shortcut.Same r'.shortcut
  disableglobalshortcuts : r.disableglobalshortcuts.Same r'.disableglobalshortcuts
  desktopfile            : r.desktopfile.Same r'.desktopfile
  layer                  : r.layer.Same r'.layer
  adaptivesync           : r.adaptivesync.Same r'.adaptivesync
  tearing                : r.tearing.Same r'.tearing
  excludefromcapture     : r.excludefromcapture.Same r'.excludefromcapture

theorem readSize_same {size size' : SetProperty QSize} (h : size.Same size')
    (hv : size.rule ≠ .unused → size.rule ≠ .remember → ¬size.value.isEmpty) : size.Same (readSize size') := by
  have hrule := h.rule
  have hvalue := h.value
  rw [readSize]
  split
  case isTrue he =>
    have hu : size.rule = .unused := by
      by_contra hu
      simp_all
    exact ⟨hu.symm, fun hn => (hn hu).elim⟩
  case isFalse => exact h

theorem readMinsize_same {minsize minsize' : ForceProperty QSize} (h : minsize.Same minsize')
    (hv : minsize.rule ≠ .unused → minsize.value.isValid) : minsize.Same (readMinsize minsize') := by
  rw [readMinsize]
  split
  case isTrue he => exact ⟨h.rule, fun hr => by simp [h.value hr, hv hr] at he⟩
  case isFalse => exact h

theorem readMaxsize_same {maxsize maxsize' : ForceProperty QSize} (h : maxsize.Same maxsize')
    (hv : maxsize.rule ≠ .unused → ¬maxsize.value.isEmpty) : maxsize.Same (readMaxsize maxsize') := by
  rw [readMaxsize]
  split
  case isTrue he => exact ⟨h.rule, fun hr => by simp [h.value hr, hv hr] at he⟩
  case isFalse => exact h

theorem decocolor_same_iff {setting : ForceSetting String} {decocolor : ForceProperty String}
    (h : decocolor.rule ≠ .unused → decocolor.value ≠ "") :
    decocolor.Same (readDecocolor ((setting.writeWith decocolor colorToString).readWith (getDecoColor locale))) ↔
      (decocolor.rule ≠ .unused → getDecoColor locale (colorToString decocolor.value) = decocolor.value) := by
  have hrule : ((setting.writeWith decocolor colorToString).readWith (getDecoColor locale)).rule = decocolor.rule :=
    convertForceRule_toInt decocolor.rule
  have hvalue (hr : decocolor.rule ≠ .unused) :
      ((setting.writeWith decocolor colorToString).readWith (getDecoColor locale)).value =
        getDecoColor locale (colorToString decocolor.value) := by
    simp only [ForceSetting.readWith, ForceSetting.writeWith, if_pos hr]
  generalize (setting.writeWith decocolor colorToString).readWith (getDecoColor locale) = read at hrule hvalue
  rw [readDecocolor]
  split
  case isTrue he =>
    have hempty : read.value = "" := String.isEmpty_iff.mp he
    exact ⟨fun hs hr => (hr hs.rule.symm).elim, fun hd =>
      have hu : decocolor.rule = .unused := by
        by_contra hr
        exact h hr ((hd hr).symm.trans ((hvalue hr).symm.trans hempty))
      ⟨hu.symm, fun hr => (hr hu).elim⟩⟩
  case isFalse =>
    exact ⟨fun hs hr => (hvalue hr).symm.trans (hs.value hr), fun hd => ⟨hrule, fun hr => (hvalue hr).trans (hd hr)⟩⟩

theorem roundTrips_iff (h : r.Built locale) (settings : RuleSettings) :
    r.RoundTrips (readFromSettings locale (r.write settings)) ↔
      r.tearing.rule = .unused ∧ r.excludefromcapture.rule = .unused ∧
      (r.hastransientparentmatch = .unimportant → r.hastransientparent = false) ∧
      (r.decocolor.rule ≠ .unused → getDecoColor locale (colorToString r.decocolor.value) = r.decocolor.value) := by
  have hv := h.valid
  constructor
  case mp =>
    intro ht
    refine ⟨ht.tearing.rule.symm, ht.excludefromcapture.rule.symm, fun hm => ?_, ?_⟩
    · have hp := ht.hastransientparent
      simp only [readFromSettings, write, hm] at hp
      exact hp.symm
    · exact (decocolor_same_iff hv.decocolor).mp ht.decocolor
  case mpr =>
    rintro ⟨ht, he, hp, hd⟩
    exact
      { wmclass := MatchSetting.read_write
        wmclasscomplete := rfl
        windowrole := MatchSetting.read_write
        title := MatchSetting.read_write
        clientmachine := MatchSetting.readWith_write hv.clientmachine
        tag := MatchSetting.read_write
        hastransientparent := by
          simp only [readFromSettings, write]
          split
          case isTrue => rfl
          case isFalse hm => exact (hp (not_not.mp hm)).symm
        hastransientparentmatch := by
          simp only [readFromSettings, write, BoolMatch.value_set, BoolMatch.ofInt_toInt]
        types := rfl
        placement := ForceSetting.read_write _ _
        position := SetSetting.read_write _ _
        size := readSize_same (SetSetting.read_write _ _) hv.size
        minsize := readMinsize_same (ForceSetting.read_write _ _) hv.minsize
        maxsize := readMaxsize_same (ForceSetting.read_write _ _) hv.maxsize
        opacityactive := ForceSetting.readWith_writeWith _ _ fun _ =>
          Bounded.value_set hv.opacityactive.1 hv.opacityactive.2
        opacityinactive := ForceSetting.readWith_writeWith _ _ fun _ =>
          Bounded.value_set hv.opacityinactive.1 hv.opacityinactive.2
        ignoregeometry := SetSetting.read_write _ _
        desktops := SetSetting.read_write _ _
        screen := SetSetting.read_write _ _
        activity := SetSetting.read_write _ _
        maximizevert := SetSetting.read_write _ _
        maximizehoriz := SetSetting.read_write _ _
        minimize := SetSetting.read_write _ _
        skiptaskbar := SetSetting.read_write _ _
        skippager := SetSetting.read_write _ _
        skipswitcher := SetSetting.read_write _ _
        above := SetSetting.read_write _ _
        below := SetSetting.read_write _ _
        fullscreen := SetSetting.read_write _ _
        noborder := SetSetting.read_write _ _
        decocolor := (decocolor_same_iff hv.decocolor).mpr hd
        blockcompositing := ForceSetting.read_write _ _
        fsplevel := ForceSetting.read_write_level _ _
        fpplevel := ForceSetting.read_write_level _ _
        acceptfocus := ForceSetting.read_write _ _
        closeable := ForceSetting.read_write _ _
        autogroup := ForceSetting.read_write _ _
        autogroupfg := ForceSetting.read_write _ _
        autogroupid := ForceSetting.read_write _ _
        strictgeometry := ForceSetting.read_write _ _
        shortcut := SetSetting.read_write _ _
        disableglobalshortcuts := ForceSetting.read_write _ _
        desktopfile := SetSetting.read_write _ _
        layer := ForceSetting.read_write _ _
        adaptivesync := ForceSetting.read_write _ _
        tearing := ⟨ht.symm, fun hr => (hr ht).elim⟩
        excludefromcapture := ⟨he.symm, fun hr => (hr he).elim⟩ }

def emptyLocale : Locale where
  toLower := fun s => s
  locate := fun _ => ""
  toLower_toLower _ := rfl

-- A rule that forces windows not to tear.
def tearingSettings : RuleSettings :=
  { currentGroup := "1", tearing := { value := false, rule := 2 } }

theorem roundTrips_iff_tearing :
    (readFromSettings emptyLocale tearingSettings).RoundTrips
        (readFromSettings emptyLocale
          ((readFromSettings emptyLocale tearingSettings).write { currentGroup := "2" })) ↔
      ForceRule.force = .unused ∧ SetRule.unused = .unused ∧ (BoolMatch.unimportant = .unimportant → false = false) ∧
      (ForceRule.unused ≠ .unused → getDecoColor emptyLocale (colorToString "") = "") :=
  roundTrips_iff (.readFromSettings tearingSettings) { currentGroup := "2" }

theorem not_roundTrips_tearing :
    ¬(readFromSettings emptyLocale tearingSettings).RoundTrips
      (readFromSettings emptyLocale
        ((readFromSettings emptyLocale tearingSettings).write { currentGroup := "2" })) := by
  intro h
  have hr : ForceRule.unused = .force := h.tearing.rule
  cases hr

end Rules
end KWin
