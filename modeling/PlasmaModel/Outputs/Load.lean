import PlasmaModel.Lib.QJsonValue
import PlasmaModel.Outputs.Store

namespace KWin

-- The conversions between int and uint32_t.
def uint32OfInt (n : Int) : UInt32 :=
  (Int32.ofInt n).toUInt32

def intOfUInt32 (n : UInt32) : Int :=
  n.toInt32.toInt

theorem intOfUInt32_uint32OfInt {n : Int} (hlow : -2 ^ 31 ≤ n) (hhigh : n < 2 ^ 31) :
    intOfUInt32 (uint32OfInt n) = n := by
  rw [intOfUInt32, uint32OfInt, Int32.toInt32_toUInt32]
  exact Int32.toInt_ofInt_of_le hlow hhigh

namespace AutoBrightnessCurve

-- The curve of 6.6.x has the points for every other step, between which is interpolated.
def fromArray : List QJsonValue → Option AutoBrightnessCurve
  | [a, b, c, d, e, f] =>
    let a := a.toDouble 0
    let b := b.toDouble 0
    let c := c.toDouble 0
    let d := d.toDouble 0
    let e := e.toDouble 0
    let f := f.toDouble 0
    some ⟨#v[a, (a + b) / 2, b, (b + c) / 2, c, (c + d) / 2, d, (d + e) / 2, e, (e + f) / 2, f]⟩
  | array => if h : array.length = 11 then some ⟨⟨(array.map (·.toDouble 0)).toArray, by simpa using h⟩⟩ else none

def toArray (curve : AutoBrightnessCurve) : List QJsonValue :=
  curve.luxAtBrightness.toList.map .double

end AutoBrightnessCurve

-- Modes are the same in the list of custom modes and as the mode of an output.
def readMode {α : Type} (mode : QSize → UInt32 → UInt32 → α) (value : QJsonValue) : Option α :=
  let obj := value.toObject
  let width := (obj.value "width").toInt 0
  let height := (obj.value "height").toInt 0
  let refreshRate := (obj.value "refreshRate").toInt 0
  let flags := (obj.value "flags").toInt 0
  if 0 < width ∧ 0 < height ∧ 0 < refreshRate then
    some (mode ⟨width, height⟩ (uint32OfInt refreshRate) (uint32OfInt flags))
  else
    none

def writeMode (size : QSize) (refreshRate flags : UInt32) : QJsonValue :=
  .object [("width", .double size.width), ("height", .double size.height),
    ("refreshRate", .double (intOfUInt32 refreshRate)), ("flags", .double (intOfUInt32 flags))]

namespace OutputField

-- An empty string is as good as none.
def nonEmpty (key : String) : JsonField String where
  key   := key
  read  := fun value => if value.toString = "" then none else some value.toString
  write := .string

def string (key : String) : JsonField String where
  key   := key
  read  := fun value => some value.toString
  write := .string

def bool (key : String) : JsonField Bool where
  key   := key
  read  := fun value => if value.isBool then some (value.toBool false) else none
  write := .bool

def double (key : String) (accept : ℚ → Option ℚ) : JsonField ℚ where
  key   := key
  read  := fun value => if value.isDouble then accept (value.toDouble 0) else none
  write := .double

def level (key : String) (highest : Int) : JsonField UInt32 where
  key   := key
  read  := fun value =>
    let level := value.toInt (-1)
    if 0 ≤ level ∧ level ≤ highest then some (uint32OfInt level) else none
  write := fun level => .double (intOfUInt32 level)

def edidIdentifier : JsonField String :=
  nonEmpty "edidIdentifier"

def edidHash : JsonField String :=
  nonEmpty "edidHash"

def connectorName : JsonField String :=
  nonEmpty "connectorName"

def mstPath : JsonField String :=
  nonEmpty "mstPath"

def mode : JsonField OutputModeline where
  key   := "mode"
  read  := readMode OutputModeline.mk
  write := fun mode => writeMode mode.size mode.refreshRate mode.flags

def scale : JsonField ℚ where
  key   := "scale"
  read  := fun value =>
    let scale := value.toDouble 0
    if 0 < scale ∧ scale ≤ 5 then some scale else none
  write := .double

def transform : JsonField OutputTransform :=
  .ofNames "transform" [("Normal", .normal), ("Rotated90", .rotate90), ("Rotated180", .rotate180),
    ("Rotated270", .rotate270), ("Flipped", .flipX), ("Flipped90", .flipX90), ("Flipped180", .flipX180),
    ("Flipped270", .flipX270)]

def overscan : JsonField UInt32 :=
  level "overscan" 100

def rgbRange : JsonField RgbRange :=
  .ofNames "rgbRange" [("Automatic", .automatic), ("Limited", .limited), ("Full", .full)]

def vrrPolicy : JsonField VrrPolicy :=
  .ofNames "vrrPolicy" [("Never", .never), ("Automatic", .automatic), ("Always", .always)]

def highDynamicRange : JsonField Bool :=
  bool "highDynamicRange"

def sdrBrightness : JsonField UInt32 where
  key   := "sdrBrightness"
  read  := fun value => if value.isDouble then some (uint32OfInt (value.toInt 200)) else none
  write := fun luminance => .double (intOfUInt32 luminance)

def wideColorGamut : JsonField Bool :=
  bool "wideColorGamut"

def autoRotation : JsonField AutoRotationPolicy :=
  .ofNames "autoRotation" [("Never", .never), ("InTabletMode", .inTabletMode), ("Always", .always)]

def iccProfilePath : JsonField String :=
  string "iccProfilePath"

def hdrIccProfilePath : JsonField String :=
  string "hdrIccProfilePath"

-- Less is clearly nonsense.
def atLeast50 (d : ℚ) : Option ℚ :=
  if d < 50 then none else some d

def maxPeakBrightnessOverride : JsonField ℚ :=
  double "maxPeakBrightnessOverride" atLeast50

def maxAverageBrightnessOverride : JsonField ℚ :=
  double "maxAverageBrightnessOverride" atLeast50

def minBrightnessOverride : JsonField ℚ :=
  double "minBrightnessOverride" some

def sdrGamutWideness : JsonField ℚ :=
  double "sdrGamutWideness" some

def profileSources : List (String × ColorProfileSource) :=
  [("sRGB", .sRGB), ("ICC", .icc), ("EDID", .edid)]

def colorProfileSource : JsonField ColorProfileSource :=
  .ofNames "colorProfileSource" profileSources

def hdrColorProfileSource : JsonField ColorProfileSource :=
  .ofNames "hdrColorProfileSource" profileSources

def clamped (d : ℚ) : Option ℚ :=
  some (if d < 0 then 0 else if 1 < d then 1 else d)

def brightness : JsonField ℚ :=
  double "brightness" clamped

def allowSdrSoftwareBrightness : JsonField Bool :=
  bool "allowSdrSoftwareBrightness"

def colorPowerTradeoff : JsonField ColorPowerTradeoff :=
  .ofNames "colorPowerTradeoff" [("PreferEfficiency", .preferEfficiency), ("PreferAccuracy", .preferAccuracy)]

def uuid : JsonField String :=
  nonEmpty "uuid"

def detectedDdcCi : JsonField Bool :=
  bool "detectedDdcCi"

def allowDdcCi : JsonField Bool :=
  bool "allowDdcCi"

def maxBitsPerColor : JsonField UInt32 where
  key   := "maxBitsPerColor"
  read  := fun value =>
    let bpc := value.toInteger 0
    if 6 ≤ bpc ∧ bpc ≤ 16 then some (uint32OfInt bpc) else none
  write := fun bpc => .double (intOfUInt32 bpc)

def edrPolicy : JsonField EdrPolicy :=
  .ofNames "edrPolicy" [("never", .never), ("always", .always)]

def sharpness : JsonField ℚ :=
  double "sharpness" clamped

def customModes : JsonField (List CustomModeDefinition) where
  key   := "customModes"
  read  := fun value =>
    if value.isArray then some (value.toArray.filterMap (readMode CustomModeDefinition.mk)) else none
  write := fun modes => .array (modes.map fun mode => writeMode mode.size mode.refreshRate mode.flags)

def automaticBrightness : JsonField Bool :=
  bool "automaticBrightness"

def autoBrightnessCurve : JsonField AutoBrightnessCurve where
  key   := "autoBrightnessCurve"
  read  := fun value => if value.isArray then AutoBrightnessCurve.fromArray value.toArray else none
  write := fun curve => .array curve.toArray

def abmLevel : JsonField UInt32 :=
  level "abmLevel" 4

end OutputField

section

open OutputField

def loadIdentification (data : QJsonObject) : OutputIdentification where
  edidIdentifier := (edidIdentifier.load data).getD ""
  edidHash       := (edidHash.load data).getD ""
  connectorName  := (connectorName.load data).getD ""
  mstPath        := (mstPath.load data).getD ""

-- The sources of color profiles are newer than the other fields.
def defaultColorProfileSource (data : QJsonObject) : ColorProfileSource :=
  if (iccProfilePath.load data).any (· ≠ "") ∧ (highDynamicRange.load data).getD false = false ∧
      (wideColorGamut.load data).getD false = false then
    .icc
  else
    .sRGB

def loadOutputState (data : QJsonObject) : OutputState where
  toOutputIdentification       := loadIdentification data
  mode                         := mode.load data
  scaleSetting                 := scale.load data
  transform                    := transform.load data
  manualTransform              := transform.load data
  overscan                     := overscan.load data
  rgbRange                     := rgbRange.load data
  vrrPolicy                    := vrrPolicy.load data
  highDynamicRange             := highDynamicRange.load data
  referenceLuminance           := sdrBrightness.load data
  wideColorGamut               := wideColorGamut.load data
  autoRotation                 := autoRotation.load data
  iccProfilePath               := iccProfilePath.load data
  hdrIccProfilePath            := hdrIccProfilePath.load data
  maxPeakBrightnessOverride    := maxPeakBrightnessOverride.load data
  maxAverageBrightnessOverride := maxAverageBrightnessOverride.load data
  minBrightnessOverride        := minBrightnessOverride.load data
  sdrGamutWideness             := sdrGamutWideness.load data
  colorProfileSource           :=
    if (data.lookup "colorProfileSource").isSome then colorProfileSource.load data else defaultColorProfileSource data
  hdrColorProfileSource        := hdrColorProfileSource.load data
  brightness                   := brightness.load data
  allowSdrSoftwareBrightness   := allowSdrSoftwareBrightness.load data
  colorPowerTradeoff           := colorPowerTradeoff.load data
  uuid                         := uuid.load data
  detectedDdcCi                := detectedDdcCi.load data
  allowDdcCi                   := allowDdcCi.load data
  maxBitsPerColor              := maxBitsPerColor.load data
  edrPolicy                    := edrPolicy.load data
  sharpness                    := sharpness.load data
  customModes                  := customModes.load data
  automaticBrightness          := automaticBrightness.load data
  autoBrightnessCurve          := autoBrightnessCurve.load data
  abmLevel                     := abmLevel.load data

def ofNonEmpty (s : String) : Option String :=
  if s = "" then none else some s

-- Of the transforms only the manual one is kept.
def outputStateFields (output : OutputState) : List (String × Option QJsonValue) :=
  [edidIdentifier.save (ofNonEmpty output.edidIdentifier),
    edidHash.save (ofNonEmpty output.edidHash),
    connectorName.save (ofNonEmpty output.connectorName),
    mstPath.save (ofNonEmpty output.mstPath),
    mode.save output.mode,
    scale.save output.scaleSetting,
    transform.save output.manualTransform,
    overscan.save output.overscan,
    rgbRange.save output.rgbRange,
    vrrPolicy.save output.vrrPolicy,
    highDynamicRange.save output.highDynamicRange,
    sdrBrightness.save output.referenceLuminance,
    wideColorGamut.save output.wideColorGamut,
    autoRotation.save output.autoRotation,
    iccProfilePath.save output.iccProfilePath,
    hdrIccProfilePath.save output.hdrIccProfilePath,
    maxPeakBrightnessOverride.save output.maxPeakBrightnessOverride,
    maxAverageBrightnessOverride.save output.maxAverageBrightnessOverride,
    minBrightnessOverride.save output.minBrightnessOverride,
    sdrGamutWideness.save output.sdrGamutWideness,
    colorProfileSource.save output.colorProfileSource,
    hdrColorProfileSource.save output.hdrColorProfileSource,
    brightness.save output.brightness,
    allowSdrSoftwareBrightness.save output.allowSdrSoftwareBrightness,
    colorPowerTradeoff.save output.colorPowerTradeoff,
    uuid.save output.uuid,
    detectedDdcCi.save output.detectedDdcCi,
    allowDdcCi.save output.allowDdcCi,
    maxBitsPerColor.save output.maxBitsPerColor,
    edrPolicy.save output.edrPolicy,
    sharpness.save output.sharpness,
    customModes.save output.customModes,
    automaticBrightness.save output.automaticBrightness,
    autoBrightnessCurve.save output.autoBrightnessCurve,
    abmLevel.save output.abmLevel]

def saveOutputState (output : OutputState) : QJsonValue :=
  .object (QJsonObject.ofFields (outputStateFields output))

end

namespace SetupState

def loadPosition (outputData : QJsonObject) : Option QPoint := do
  let obj := (← outputData.lookup "position").toObject
  let x ← obj.lookup "x"
  let y ← obj.lookup "y"
  if x.isDouble ∧ y.isDouble then
    let position : QPoint := ⟨x.toInt 0, y.toInt 0⟩
    -- The setup is better generated from scratch when an output is that far away.
    if 1000000 < position.x ∨ position.x < -1000000 ∨ 1000000 < position.y ∨ position.y < -1000000 then
      none
    else
      some position
  else
    none

-- The priority of an output that is disabled does not matter.
def loadPriority (outputData : QJsonObject) (enabled : Bool) : Option Int :=
  match outputData.lookup "priority" with
  | some value => if value.toInt (-1) < 0 ∧ enabled then none else some (value.toInt (-1))
  | none => some (2 ^ 31 - 1)

-- An output cannot be replicated by itself.
def loadReplicationSource (outputData : QJsonObject) (sharedState : OutputState) : String :=
  match outputData.lookup "replicationSource" with
  | some value => if sharedState.uuid ≠ some value.toString then value.toString else ""
  | none => ""

-- The indices are those of the entries in the file, some of which have been rejected. No entry has two states.
def load (outputDatas : List (Option OutputState)) (states : List SetupState) (output : QJsonValue) :
    Option SetupState := do
  let outputData := output.toObject
  let enabled ← (OutputField.bool "enabled").load outputData
  let index := (← outputData.lookup "outputIndex").toInt (-1)
  if index ≤ -1 then
    none
  else
    let sharedState ← (outputDatas[index.toNat]?).join
    if states.any (·.outputIndex == index.toNat) then
      none
    else
      let position ← loadPosition outputData
      let priority ← loadPriority outputData enabled
      some
        { outputIndex       := index.toNat
          position          := position
          enabled           := enabled
          priority          := priority
          replicationSource := loadReplicationSource outputData sharedState }

def save (state : SetupState) : QJsonValue :=
  .object [("enabled", .bool state.enabled), ("outputIndex", .double state.outputIndex),
    ("priority", .double state.priority),
    ("position", .object [("x", .double state.position.x), ("y", .double state.position.y)]),
    ("replicationSource", .string state.replicationSource)]

end SetupState

namespace Setup

def hasSameOutputs (setup other : Setup) : Bool :=
  setup.lidClosed == other.lidClosed && setup.outputs.length == other.outputs.length &&
    setup.outputs.all fun output => other.outputs.any (·.outputIndex == output.outputIndex)

def loadOutputs (outputDatas : List (Option OutputState)) (outputs : List QJsonValue) : Option (List SetupState) :=
  outputs.foldlM (fun states output => do return states ++ [← SetupState.load outputDatas states output]) []

-- One of the outputs must be enabled.
def load (outputDatas : List (Option OutputState)) (value : QJsonValue) : Option Setup := do
  let data := value.toObject
  let outputs ← loadOutputs outputDatas (data.value "outputs").toArray
  if outputs.isEmpty ∨ ¬outputs.any (·.enabled) then
    none
  else
    some ⟨(data.value "lidClosed").toBool false, outputs⟩

def save (setup : Setup) : QJsonValue :=
  .object [("lidClosed", .bool setup.lidClosed), ("outputs", .array (setup.outputs.map (·.save)))]

-- The entry at `i` is erased, and those behind it move up.
def eraseOutput (i : Nat) (setups : List Setup) : List Setup :=
  (setups.filter fun setup => !setup.outputs.any (·.outputIndex == i)).map fun setup =>
    { setup with outputs := setup.outputs.map fun output =>
        { output with outputIndex := if i < output.outputIndex then output.outputIndex - 1 else output.outputIndex } }

end Setup

namespace OutputConfigurationStore

-- Entries without identifiers are useless, and of entries with the same ones the first is taken. The indices of the
-- other entries must not change.
def loadOutput (outputDatas : List (Option OutputState)) (output : QJsonValue) : Option OutputState :=
  let state := loadOutputState output.toObject
  if state.toOutputIdentification = {} then
    none
  else if outputDatas.any fun data => data.any (·.toOutputIdentification = state.toOutputIdentification) then
    none
  else
    some state

def loadOutputs (outputs : List QJsonValue) : List (Option OutputState) :=
  outputs.foldl (fun outputDatas output => outputDatas ++ [loadOutput outputDatas output]) []

-- Only one setup refers to a set of outputs.
def loadSetups (outputDatas : List (Option OutputState)) (setups : List QJsonValue) : List Setup :=
  setups.foldl (fun loaded value =>
    match Setup.load outputDatas value with
    | some setup => if loaded.any (setup.hasSameOutputs ·) then loaded else loaded ++ [setup]
    | none => loaded) []

-- The entries in `repaired` are the first ones. Of entries with the same uuid the last keeps it.
def repair (repaired : List OutputState) : List (Option OutputState) → List Setup → OutputConfigurationStore
  | [], setups => ⟨repaired, setups⟩
  | none :: outputDatas, setups => repair repaired outputDatas (Setup.eraseOutput repaired.length setups)
  | some state :: outputDatas, setups =>
    let count := repaired.countP (·.uuid == state.uuid) +
      (some state :: outputDatas).countP fun data => data.any (·.uuid == state.uuid)
    repair (repaired ++ [if 1 < count then { state with uuid := none } else state]) outputDatas setups

def dataOf (name : String) (document : QJsonValue) : Option (List QJsonValue) :=
  (document.toArray.map (·.toObject)).findSome? fun obj =>
    if (obj.value "name").toString = name ∧ (obj.value "data").isArray then some (obj.value "data").toArray else none

-- The store is empty before.
def load (document : QJsonValue) : OutputConfigurationStore :=
  match dataOf "outputs" document, dataOf "setups" document with
  | some outputs, some setups =>
    let outputDatas := loadOutputs outputs
    repair [] outputDatas (loadSetups outputDatas setups)
  | _, _ => {}

def save (store : OutputConfigurationStore) : QJsonValue :=
  .array [.object [("name", .string "outputs"), ("data", .array (store.outputs.map saveOutputState))],
    .object [("name", .string "setups"), ("data", .array (store.setups.map (·.save)))]]

end OutputConfigurationStore
end KWin
