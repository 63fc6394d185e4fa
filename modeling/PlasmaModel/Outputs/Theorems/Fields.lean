import PlasmaModel.Outputs.Load

namespace KWin

theorem AutoBrightnessCurve.fromArray_toArray (curve : AutoBrightnessCurve) : fromArray curve.toArray = some curve := by
  have hlen : curve.toArray.length = 11 := by simp [toArray]
  unfold fromArray
  split
  case h_1 heq =>
    rw [heq] at hlen
    cases hlen
  case h_2 =>
    rw [dif_pos hlen]
    have hvalues : curve.toArray.map (·.toDouble 0) = curve.luxAtBrightness.toList := by
      simp [toArray, Function.comp_def, QJsonValue.toDouble]
    simp only [hvalues]
    rfl

theorem readMode_writeMode {α : Type} {mode : QSize → UInt32 → UInt32 → α} {value : QJsonValue} {a : α}
    (h : readMode mode value = some a) :
    ∃ size refreshRate flags, a = mode size refreshRate flags ∧
      readMode mode (writeMode size refreshRate flags) = some (mode size refreshRate flags) := by
  have int (value : QJsonValue) : (QJsonValue.double (value.toInt 0)).toInt 0 = value.toInt 0 :=
    QJsonValue.toInt_toInt (by decide) (by decide) value 0
  have uint (value : QJsonValue) : intOfUInt32 (uint32OfInt (value.toInt 0)) = value.toInt 0 := by
    obtain ⟨hlow, hhigh⟩ := @QJsonValue.toInt_bounds 0 (by decide) (by decide) value
    exact intOfUInt32_uint32OfInt hlow hhigh
  simp only [readMode] at h
  split at h
  case isTrue hpos =>
    refine ⟨_, _, _, (Option.some.inj h).symm, ?_⟩
    have width (size : QSize) (refreshRate flags : UInt32) :
        (writeMode size refreshRate flags).toObject.value "width" = .double size.width := rfl
    have height (size : QSize) (refreshRate flags : UInt32) :
        (writeMode size refreshRate flags).toObject.value "height" = .double size.height := rfl
    have rate (size : QSize) (refreshRate flags : UInt32) :
        (writeMode size refreshRate flags).toObject.value "refreshRate" = .double (intOfUInt32 refreshRate) := rfl
    have bits (size : QSize) (refreshRate flags : UInt32) :
        (writeMode size refreshRate flags).toObject.value "flags" = .double (intOfUInt32 flags) := rfl
    simp only [readMode, width, height, rate, bits, uint, int, if_pos hpos]
  case isFalse => cases h

namespace OutputField

theorem stable_nonEmpty (key : String) : (nonEmpty key).Stable := by
  intro value a hread
  have hread : (if value.toString = "" then none else some value.toString) = some a := hread
  split at hread
  case isTrue => cases hread
  case isFalse hne =>
    cases hread
    exact if_neg hne

theorem stable_string (key : String) : (string key).Stable :=
  fun _ _ _ => rfl

theorem stable_bool (key : String) : (bool key).Stable :=
  fun _ _ _ => rfl

theorem stable_double (key : String) {accept : ℚ → Option ℚ} (h : ∀ d d', accept d = some d' → accept d' = some d') :
    (double key accept).Stable := by
  intro value a hread
  have hread : (if value.isDouble then accept (value.toDouble 0) else none) = some a := hread
  split at hread
  case isTrue => exact h _ a hread
  case isFalse => cases hread

theorem stable_level (key : String) {highest : Int} (h : highest < 2 ^ 31) : (level key highest).Stable := by
  intro value a hread
  have hread : (if 0 ≤ value.toInt (-1) ∧ value.toInt (-1) ≤ highest then some (uint32OfInt (value.toInt (-1)))
    else none) = some a := hread
  split at hread
  case isTrue hin =>
    cases hread
    have hint : (QJsonValue.double (intOfUInt32 (uint32OfInt (value.toInt (-1))))).toInt (-1) = value.toInt (-1) := by
      rw [intOfUInt32_uint32OfInt (by omega) (by omega)]
      exact QJsonValue.toInt_intCast (by omega) (by omega) _
    simp only [level, hint, if_pos hin]
  case isFalse => cases hread

theorem atLeast50_stable (d d' : ℚ) (h : atLeast50 d = some d') : atLeast50 d' = some d' := by
  rw [atLeast50] at h
  split at h
  case isTrue => cases h
  case isFalse hge =>
    cases h
    exact if_neg hge

theorem clamped_stable (d d' : ℚ) (h : clamped d = some d') : clamped d' = some d' := by
  rw [clamped] at h
  split at h
  case isTrue =>
    cases h
    rfl
  case isFalse hlow =>
    split at h
    case isTrue =>
      cases h
      rfl
    case isFalse hhigh =>
      cases h
      rw [clamped, if_neg hlow, if_neg hhigh]

theorem filterMap_map {α β : Type} {f : α → β} {g : β → Option α} {l : List α} (h : ∀ a ∈ l, g (f a) = some a) :
    (l.map f).filterMap g = l := by
  induction l
  case nil => rfl
  case cons a l ih =>
    have ⟨ha, hl⟩ := List.forall_mem_cons.mp h
    rw [List.map_cons, List.filterMap_cons_some ha, ih hl]

theorem stable_mode : mode.Stable := by
  intro value a hread
  have ⟨_, _, _, ha, hw⟩ := readMode_writeMode hread
  subst ha
  exact hw

theorem stable_customModes : customModes.Stable := by
  intro value a hread
  have hread : (if value.isArray then some (value.toArray.filterMap (readMode CustomModeDefinition.mk)) else none) =
    some a := hread
  split at hread
  case isTrue =>
    cases hread
    have hmodes := filterMap_map (f := fun mode => writeMode mode.size mode.refreshRate mode.flags)
      (g := readMode CustomModeDefinition.mk) (l := value.toArray.filterMap (readMode CustomModeDefinition.mk))
      (by
        intro mode hmode
        have ⟨_, _, hread⟩ := List.mem_filterMap.mp hmode
        have ⟨_, _, _, ha, hw⟩ := readMode_writeMode hread
        subst ha
        exact hw)
    exact congrArg some hmodes
  case isFalse => cases hread

theorem stable_scale : scale.Stable := by
  intro value a hread
  have hread : (if 0 < value.toDouble 0 ∧ value.toDouble 0 ≤ 5 then some (value.toDouble 0) else none) = some a := hread
  split at hread
  case isTrue hin =>
    cases hread
    exact if_pos hin
  case isFalse => cases hread

theorem stable_sdrBrightness : sdrBrightness.Stable := by
  intro value a hread
  have hread : (if value.isDouble then some (uint32OfInt (value.toInt 200)) else none) = some a := hread
  split at hread
  case isTrue =>
    cases hread
    obtain ⟨hlow, hhigh⟩ := @QJsonValue.toInt_bounds 200 (by decide) (by decide) value
    have hint : (QJsonValue.double (intOfUInt32 (uint32OfInt (value.toInt 200)))).toInt 200 = value.toInt 200 := by
      rw [intOfUInt32_uint32OfInt hlow hhigh]
      exact QJsonValue.toInt_intCast hlow hhigh _
    exact congrArg (fun n => some (uint32OfInt n)) hint
  case isFalse => cases hread

theorem stable_maxBitsPerColor : maxBitsPerColor.Stable := by
  intro value a hread
  have hread : (if 6 ≤ value.toInteger 0 ∧ value.toInteger 0 ≤ 16 then some (uint32OfInt (value.toInteger 0))
    else none) = some a := hread
  split at hread
  case isTrue hin =>
    cases hread
    have hint : (QJsonValue.double (intOfUInt32 (uint32OfInt (value.toInteger 0)))).toInteger 0 =
        value.toInteger 0 := by
      rw [intOfUInt32_uint32OfInt (by omega) (by omega)]
      exact QJsonValue.toBits_intCast (by omega) (by omega) _
    simp only [maxBitsPerColor, hint, if_pos hin]
  case isFalse => cases hread

theorem stable_autoBrightnessCurve : autoBrightnessCurve.Stable :=
  fun _ curve _ => AutoBrightnessCurve.fromArray_toArray curve

theorem stable_transform : transform.Stable :=
  JsonField.stable_ofNames _ (by decide)

theorem stable_rgbRange : rgbRange.Stable :=
  JsonField.stable_ofNames _ (by decide)

theorem stable_vrrPolicy : vrrPolicy.Stable :=
  JsonField.stable_ofNames _ (by decide)

theorem stable_autoRotation : autoRotation.Stable :=
  JsonField.stable_ofNames _ (by decide)

theorem stable_profileSource (key : String) : (JsonField.ofNames key profileSources).Stable :=
  JsonField.stable_ofNames _ (by decide)

theorem stable_colorPowerTradeoff : colorPowerTradeoff.Stable :=
  JsonField.stable_ofNames _ (by decide)

theorem stable_edrPolicy : edrPolicy.Stable :=
  JsonField.stable_ofNames _ (by decide)

end OutputField

open OutputField

theorem outputStateFields_nodup (output : OutputState) : ((outputStateFields output).map Prod.fst).Nodup := by
  have hkeys : (outputStateFields output).map Prod.fst = (outputStateFields {}).map Prod.fst := rfl
  rw [hkeys]
  decide

theorem ofNonEmpty_getD {s : Option String} (h : s ≠ some "") : ofNonEmpty (s.getD "") = s := by
  cases s
  case none => rfl
  case some s => exact if_neg fun he => h (congrArg some he)

theorem nonEmpty_load_ne (key : String) (data : QJsonObject) : (nonEmpty key).load data ≠ some "" := by
  intro h
  have ⟨value, _, hread⟩ := Option.bind_eq_some_iff.mp h
  have hread : (if value.toString = "" then none else some value.toString) = some "" := hread
  split at hread
  case isTrue => cases hread
  case isFalse hne => exact hne (Option.some.inj hread)

section

variable {data : QJsonObject} {output : OutputState}

theorem load_saved (output : OutputState) {α : Type} (field : JsonField α) {value : Option α}
    (hstable : field.Stable) (hload : value = field.load data)
    (hmem : field.save value ∈ outputStateFields output := by simp [outputStateFields]) :
    field.load (saveOutputState output).toObject = value :=
  field.load_save (hload ▸ hstable.load data) (outputStateFields_nodup output) hmem

theorem loadIdentification_saved (h : output.toOutputIdentification = loadIdentification data) :
    loadIdentification (saveOutputState output).toObject = output.toOutputIdentification := by
  have saved {key s : String} (hs : s = ((nonEmpty key).load data).getD "")
      (hmem : (nonEmpty key).save (ofNonEmpty s) ∈ outputStateFields output) :
      ((nonEmpty key).load (saveOutputState output).toObject).getD "" = s := by
    have hload : ofNonEmpty s = (nonEmpty key).load data := hs ▸ ofNonEmpty_getD (nonEmpty_load_ne key data)
    rw [load_saved output (nonEmpty key) (stable_nonEmpty key) hload hmem, hload, hs]
  have hid := saved (congrArg OutputIdentification.edidIdentifier h) (by simp [outputStateFields, edidIdentifier])
  have hname := saved (congrArg OutputIdentification.connectorName h) (by simp [outputStateFields, connectorName])
  have hhash := saved (congrArg OutputIdentification.edidHash h) (by simp [outputStateFields, edidHash])
  have hmst := saved (congrArg OutputIdentification.mstPath h) (by simp [outputStateFields, mstPath])
  rw [loadIdentification, edidIdentifier, hid, connectorName, hname, edidHash, hhash, mstPath, hmst]

-- What has been loaded of an output is saved as it is, with or without the uuid. Only a source of color profiles
-- that is not known comes back as the default.
theorem loadOutputState_saved (h : output = { loadOutputState data with uuid := output.uuid })
    (huuid : output.uuid = none ∨ output.uuid = (loadOutputState data).uuid) :
    loadOutputState (saveOutputState output).toObject =
      { output with colorProfileSource := some (output.colorProfileSource.getD
          (defaultColorProfileSource (saveOutputState output).toObject)) } := by
  have hmode := load_saved output mode stable_mode (congrArg OutputState.mode h)
  have hscaleSetting := load_saved output scale stable_scale (congrArg OutputState.scaleSetting h)
  have hmanualTransform := load_saved output transform stable_transform (congrArg OutputState.manualTransform h)
  have hoverscan := load_saved output overscan (stable_level _ (by decide)) (congrArg OutputState.overscan h)
  have hrgbRange := load_saved output rgbRange stable_rgbRange (congrArg OutputState.rgbRange h)
  have hvrrPolicy := load_saved output vrrPolicy stable_vrrPolicy (congrArg OutputState.vrrPolicy h)
  have hhighDynamicRange := load_saved output highDynamicRange (stable_bool _) (congrArg OutputState.highDynamicRange h)
  have hreferenceLuminance := load_saved output sdrBrightness stable_sdrBrightness
    (congrArg OutputState.referenceLuminance h)
  have hwideColorGamut := load_saved output wideColorGamut (stable_bool _) (congrArg OutputState.wideColorGamut h)
  have hautoRotation := load_saved output autoRotation stable_autoRotation (congrArg OutputState.autoRotation h)
  have hiccProfilePath := load_saved output iccProfilePath (stable_string _) (congrArg OutputState.iccProfilePath h)
  have hhdrIccProfilePath := load_saved output hdrIccProfilePath (stable_string _)
    (congrArg OutputState.hdrIccProfilePath h)
  have hmaxPeak := load_saved output maxPeakBrightnessOverride (stable_double _ atLeast50_stable)
    (congrArg OutputState.maxPeakBrightnessOverride h)
  have hmaxAverage := load_saved output maxAverageBrightnessOverride (stable_double _ atLeast50_stable)
    (congrArg OutputState.maxAverageBrightnessOverride h)
  have hmin := load_saved output minBrightnessOverride (stable_double _ fun _ _ _ => rfl)
    (congrArg OutputState.minBrightnessOverride h)
  have hsdrGamutWideness := load_saved output sdrGamutWideness (stable_double _ fun _ _ _ => rfl)
    (congrArg OutputState.sdrGamutWideness h)
  have hhdrColorProfileSource := load_saved output hdrColorProfileSource (stable_profileSource _)
    (congrArg OutputState.hdrColorProfileSource h)
  have hbrightness := load_saved output brightness (stable_double _ clamped_stable) (congrArg OutputState.brightness h)
  have hsoftwareBrightness := load_saved output allowSdrSoftwareBrightness (stable_bool _)
    (congrArg OutputState.allowSdrSoftwareBrightness h)
  have hcolorPowerTradeoff := load_saved output colorPowerTradeoff stable_colorPowerTradeoff
    (congrArg OutputState.colorPowerTradeoff h)
  have hdetectedDdcCi := load_saved output detectedDdcCi (stable_bool _) (congrArg OutputState.detectedDdcCi h)
  have hallowDdcCi := load_saved output allowDdcCi (stable_bool _) (congrArg OutputState.allowDdcCi h)
  have hmaxBitsPerColor := load_saved output maxBitsPerColor stable_maxBitsPerColor
    (congrArg OutputState.maxBitsPerColor h)
  have hedrPolicy := load_saved output edrPolicy stable_edrPolicy (congrArg OutputState.edrPolicy h)
  have hsharpness := load_saved output sharpness (stable_double _ clamped_stable) (congrArg OutputState.sharpness h)
  have hcustomModes := load_saved output customModes stable_customModes (congrArg OutputState.customModes h)
  have hautomaticBrightness := load_saved output automaticBrightness (stable_bool _)
    (congrArg OutputState.automaticBrightness h)
  have hautoBrightnessCurve := load_saved output autoBrightnessCurve stable_autoBrightnessCurve
    (congrArg OutputState.autoBrightnessCurve h)
  have habmLevel := load_saved output abmLevel (stable_level _ (by decide)) (congrArg OutputState.abmLevel h)
  have hid := loadIdentification_saved (congrArg OutputState.toOutputIdentification h)
  have htransform : output.manualTransform = output.transform :=
    (congrArg OutputState.manualTransform h).trans (congrArg OutputState.transform h).symm
  have huuid : uuid.load (saveOutputState output).toObject = output.uuid := by
    apply uuid.load_save ?_ (outputStateFields_nodup output) (by simp [outputStateFields])
    intro a ha
    cases huuid
    case inl hnone =>
      rw [hnone] at ha
      cases ha
    case inr heq =>
      have heq : output.uuid = (nonEmpty "uuid").load data := heq
      exact (stable_nonEmpty "uuid").load data a (heq ▸ ha)
  have hsource : (saveOutputState output).toObject.lookup "colorProfileSource" =
      output.colorProfileSource.map colorProfileSource.write :=
    (QJsonObject.lookup_ofFields (outputStateFields_nodup output) _).trans
      (congrArg Option.join (lookup_of_mem (outputStateFields_nodup output)
        (show colorProfileSource.save output.colorProfileSource ∈ _ by simp [outputStateFields])))
  have hcolorProfileSource : (if ((saveOutputState output).toObject.lookup "colorProfileSource").isSome then
      colorProfileSource.load (saveOutputState output).toObject
      else some (defaultColorProfileSource (saveOutputState output).toObject)) =
      some (output.colorProfileSource.getD (defaultColorProfileSource (saveOutputState output).toObject)) := by
    cases hs : output.colorProfileSource
    case none =>
      rw [hsource, hs]
      rfl
    case some source =>
      have hload : colorProfileSource.load (saveOutputState output).toObject = some source :=
        colorProfileSource.load_save (fun a ha => by cases ha; cases source <;> rfl) (outputStateFields_nodup output)
          (by simp [outputStateFields, hs])
      rw [hsource, hs, hload]
      rfl
  simp only [loadOutputState, hid, huuid, hcolorProfileSource,
    hmode, hscaleSetting, hmanualTransform, hoverscan, hrgbRange, hvrrPolicy,
    hhighDynamicRange, hreferenceLuminance, hwideColorGamut, hautoRotation, hiccProfilePath,
    hhdrIccProfilePath, hmaxPeak, hmaxAverage, hmin,
    hsdrGamutWideness, hhdrColorProfileSource, hbrightness, hsoftwareBrightness, hcolorPowerTradeoff,
    hdetectedDdcCi, hallowDdcCi, hmaxBitsPerColor, hedrPolicy, hsharpness, hcustomModes,
    hautomaticBrightness, hautoBrightnessCurve, habmLevel, htransform]

end

end KWin
