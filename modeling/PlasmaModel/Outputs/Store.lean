import Mathlib.Data.List.Nodup
import Mathlib.Data.Rat.Defs

namespace KWin

structure QSize where
  width  : Int
  height : Int
deriving DecidableEq, Inhabited

structure QPoint where
  x : Int
  y : Int
deriving DecidableEq, Inhabited

-- The flags are the bits of preferred, generated, custom and reduced blanking modes.
structure OutputModeline where
  size        : QSize
  refreshRate : UInt32
  flags       : UInt32
deriving DecidableEq, Inhabited

structure CustomModeDefinition where
  size        : QSize
  refreshRate : UInt32
  flags       : UInt32
deriving DecidableEq

inductive OutputTransform
  | normal
  | rotate90
  | rotate180
  | rotate270
  | flipX
  | flipX90
  | flipX180
  | flipX270
deriving DecidableEq, Inhabited

inductive RgbRange
  | automatic
  | full
  | limited
deriving DecidableEq, Inhabited

inductive VrrPolicy
  | never
  | always
  | automatic
deriving DecidableEq, Inhabited

inductive AutoRotationPolicy
  | never
  | inTabletMode
  | always
deriving DecidableEq, Inhabited

inductive ColorProfileSource
  | sRGB
  | icc
  | edid
deriving DecidableEq, Inhabited

inductive ColorPowerTradeoff
  | preferEfficiency
  | preferAccuracy
deriving DecidableEq, Inhabited

inductive EdrPolicy
  | never
  | always
deriving DecidableEq, Inhabited

-- The brightness in lux at each of the control points.
structure AutoBrightnessCurve where
  luxAtBrightness : Vector ℚ 11
deriving DecidableEq, Inhabited

-- What an output is told apart by, empty where it is not known.
structure OutputIdentification where
  edidIdentifier : String := ""
  connectorName  : String := ""
  edidHash       : String := ""
  mstPath        : String := ""
deriving DecidableEq

-- Doubles are exact.
structure OutputState extends OutputIdentification where
  mode                         : Option OutputModeline := none
  scaleSetting                 : Option ℚ := none
  transform                    : Option OutputTransform := none
  manualTransform              : Option OutputTransform := none
  overscan                     : Option UInt32 := none
  rgbRange                     : Option RgbRange := none
  vrrPolicy                    : Option VrrPolicy := none
  highDynamicRange             : Option Bool := none
  referenceLuminance           : Option UInt32 := none
  wideColorGamut               : Option Bool := none
  autoRotation                 : Option AutoRotationPolicy := none
  iccProfilePath               : Option String := none
  hdrIccProfilePath            : Option String := none
  colorProfileSource           : Option ColorProfileSource := none
  hdrColorProfileSource        : Option ColorProfileSource := none
  maxPeakBrightnessOverride    : Option ℚ := none
  maxAverageBrightnessOverride : Option ℚ := none
  minBrightnessOverride        : Option ℚ := none
  sdrGamutWideness             : Option ℚ := none
  brightness                   : Option ℚ := none
  allowSdrSoftwareBrightness   : Option Bool := none
  colorPowerTradeoff           : Option ColorPowerTradeoff := none
  uuid                         : Option String := none
  detectedDdcCi                : Option Bool := none
  allowDdcCi                   : Option Bool := none
  maxBitsPerColor              : Option UInt32 := none
  edrPolicy                    : Option EdrPolicy := none
  sharpness                    : Option ℚ := none
  customModes                  : Option (List CustomModeDefinition) := none
  automaticBrightness          : Option Bool := none
  autoBrightnessCurve          : Option AutoBrightnessCurve := none
  abmLevel                     : Option UInt32 := none
deriving DecidableEq

structure SetupState where
  outputIndex       : Nat
  position          : QPoint
  enabled           : Bool
  priority          : Int
  replicationSource : String := ""
deriving DecidableEq, Inhabited

structure Setup where
  lidClosed : Bool := false
  outputs   : List SetupState := []
deriving DecidableEq

structure OutputConfigurationStore where
  outputs : List OutputState := []
  setups  : List Setup := []

-- An output that is connected, with the identifiers of its EDID. `modeline` is that of the current mode.
structure BackendOutput where
  name                         : String
  edidIdentifier               : String
  edidHash                     : String
  mstPath                      : String
  isNonDesktop                 : Bool
  isPlaceholder                : Bool
  isEnabled                    : Bool
  position                     : QPoint
  priority                     : UInt32
  replicationSource            : String
  desiredMode                  : OutputModeline
  modeline                     : OutputModeline
  scaleSetting                 : ℚ
  transform                    : OutputTransform
  manualTransform              : OutputTransform
  overscan                     : UInt32
  rgbRange                     : RgbRange
  vrrPolicy                    : VrrPolicy
  highDynamicRange             : Bool
  referenceLuminance           : UInt32
  wideColorGamut               : Bool
  autoRotationPolicy           : AutoRotationPolicy
  iccProfilePath               : String
  hdrIccProfilePath            : String
  colorProfileSource           : ColorProfileSource
  hdrColorProfileSource        : ColorProfileSource
  maxPeakBrightnessOverride    : Option ℚ
  maxAverageBrightnessOverride : Option ℚ
  minBrightnessOverride        : Option ℚ
  sdrGamutWideness             : ℚ
  brightnessSetting            : ℚ
  allowSdrSoftwareBrightness   : Bool
  colorPowerTradeoff           : ColorPowerTradeoff
  detectedDdcCi                : Bool
  allowDdcCi                   : Bool
  maxBitsPerColor              : UInt32
  edrPolicy                    : EdrPolicy
  sharpnessSetting             : ℚ
  customModes                  : List CustomModeDefinition
  automaticBrightness          : Bool
  autoBrightnessCurve          : AutoBrightnessCurve
  abmLevel                     : UInt32
deriving Inhabited

def OutputModeline.isEmpty (modeline : OutputModeline) : Bool :=
  modeline.size.width < 1 || modeline.size.height < 1

namespace BackendOutput

def identification (output : BackendOutput) : OutputIdentification where
  edidIdentifier := output.edidIdentifier
  connectorName  := output.name
  edidHash       := output.edidHash
  mstPath        := output.mstPath

-- The outputs that the store keeps settings of.
def isRelevant (output : BackendOutput) : Bool :=
  !output.isNonDesktop && !output.isPlaceholder

-- What is stored of an output, except for its uuid.
def outputState (output : BackendOutput) (existingUuid : Option String) : OutputState where
  toOutputIdentification       := output.identification
  mode                         := if output.desiredMode.isEmpty then output.modeline else output.desiredMode
  scaleSetting                 := output.scaleSetting
  transform                    := output.transform
  manualTransform              := output.manualTransform
  overscan                     := output.overscan
  rgbRange                     := output.rgbRange
  vrrPolicy                    := output.vrrPolicy
  highDynamicRange             := output.highDynamicRange
  referenceLuminance           := output.referenceLuminance
  wideColorGamut               := output.wideColorGamut
  autoRotation                 := output.autoRotationPolicy
  iccProfilePath               := output.iccProfilePath
  hdrIccProfilePath            := output.hdrIccProfilePath
  colorProfileSource           := output.colorProfileSource
  hdrColorProfileSource        := output.hdrColorProfileSource
  maxPeakBrightnessOverride    := output.maxPeakBrightnessOverride
  maxAverageBrightnessOverride := output.maxAverageBrightnessOverride
  minBrightnessOverride        := output.minBrightnessOverride
  sdrGamutWideness             := output.sdrGamutWideness
  brightness                   := output.brightnessSetting
  allowSdrSoftwareBrightness   := output.allowSdrSoftwareBrightness
  colorPowerTradeoff           := output.colorPowerTradeoff
  uuid                         := existingUuid
  detectedDdcCi                := output.detectedDdcCi
  allowDdcCi                   := output.allowDdcCi
  maxBitsPerColor              := output.maxBitsPerColor
  edrPolicy                    := output.edrPolicy
  sharpness                    := output.sharpnessSetting
  customModes                  := output.customModes
  automaticBrightness          := output.automaticBrightness
  autoBrightnessCurve          := output.autoBrightnessCurve
  abmLevel                     := output.abmLevel

def setupState (output : BackendOutput) (outputIndex : Nat) : SetupState where
  outputIndex       := outputIndex
  position          := output.position
  enabled           := output.isEnabled
  priority          := output.priority.toInt32.toInt
  replicationSource := output.replicationSource

end BackendOutput

-- What to filter the entries of the store by.
structure Properties where
  edidIdentifier : Option String := none
  edidHash       : Option String := none
  mstPath        : Option String := none
  connectorName  : Option String := none

def Properties.matches (props : Properties) (state : OutputIdentification) : Bool :=
  props.edidIdentifier.all (· == state.edidIdentifier) && props.edidHash.all (· == state.edidHash) &&
    props.mstPath.all (· == state.mstPath) && props.connectorName.all (· == state.connectorName)

-- The entry takes over what identifies the output, and gets a uuid if it has none.
def OutputState.register (state : OutputState) (output : BackendOutput) (createUuid : String) : OutputState :=
  { state with
    toOutputIdentification := output.identification
    uuid                   := state.uuid.getD createUuid }

namespace Setup

def refersTo (setup : Setup) (outputStates : List Nat) (lidClosed : Bool) : Bool :=
  setup.lidClosed == lidClosed && setup.outputs.length == outputStates.length &&
    outputStates.all fun index => setup.outputs.any (·.outputIndex == index)

-- The new state takes the place of the first one for the same entry, if there is one.
def storeState (state : SetupState) : List SetupState → List SetupState
  | []              => [state]
  | other :: states =>
    if other.outputIndex = state.outputIndex then state :: states else other :: storeState state states

def store (setup : Setup) (state : SetupState) : Setup :=
  { setup with outputs := storeState state setup.outputs }

end Setup

namespace OutputConfigurationStore

def filterBy (store : OutputConfigurationStore) (props : Properties) : List Nat :=
  (List.range store.outputs.length).filter fun i =>
    store.outputs[i]?.any fun state => props.matches state.toOutputIdentification

def findOutputIndex (store : OutputConfigurationStore) (output : BackendOutput) (allOutputs : List BackendOutput) :
    Option Nat :=
  let edidIdUniqueAmongOutputs :=
    output.edidIdentifier ≠ "" ∧ allOutputs.countP (output.edidIdentifier == ·.edidIdentifier) = 1
  let edidHashUniqueAmongOutputs := allOutputs.countP (output.edidHash == ·.edidHash) = 1
  let mstPathUniqueAmongOutputs := output.mstPath ≠ "" ∧
    allOutputs.countP (fun other => output.edidHash == other.edidHash && output.mstPath == other.mstPath) = 1
  let withEdidId := store.filterBy { edidIdentifier := output.edidIdentifier }
  -- An entry that was stored when the EDID could not be parsed has the hash alone.
  let edidId := if withEdidId.isEmpty then "" else output.edidIdentifier
  let withHash := store.filterBy { edidIdentifier := edidId, edidHash := output.edidHash }
  let withMstPath :=
    store.filterBy { edidIdentifier := edidId, edidHash := output.edidHash, mstPath := output.mstPath }
  if withEdidId.length = 1 ∧ edidIdUniqueAmongOutputs then
    withEdidId.head?
  -- One match is the output, and none means that the store does not have it.
  else if edidHashUniqueAmongOutputs ∧ withHash.length ≤ 1 then
    withHash.head?
  else if mstPathUniqueAmongOutputs ∧ withMstPath.length = 1 then
    withMstPath.head?
  else
    let withConnectorName := store.filterBy
      { edidIdentifier := edidId, edidHash := output.edidHash, mstPath := output.mstPath, connectorName := output.name }
    withConnectorName.head?

def registerOutput (store : OutputConfigurationStore) (outputs : List BackendOutput) (createUuid : String)
    (output : BackendOutput) : OutputConfigurationStore :=
  if output.isRelevant then
    let index := (store.findOutputIndex output outputs).getD store.outputs.length
    let states :=
      if (store.findOutputIndex output outputs).isSome then store.outputs else store.outputs ++ [({} : OutputState)]
    { store with outputs := states.modify index (·.register output createUuid) }
  else
    store

-- `createUuid i` is the uuid generated while the output at `i` is registered.
def registerOutputs (store : OutputConfigurationStore) (createUuid : Nat → String) (outputs : List BackendOutput) :
    OutputConfigurationStore :=
  outputs.zipIdx.foldl (fun store output => store.registerOutput outputs (createUuid output.2) output.1) store

-- The outputs are distinct.
def findSetup (store : OutputConfigurationStore) (outputs : List BackendOutput) (lidClosed : Bool) : Option Nat := do
  let outputStates ← outputs.mapM (store.findOutputIndex · outputs)
  store.setups.findIdx? (·.refersTo outputStates lidClosed)

def storeOutput (store : OutputConfigurationStore) (setup : Nat) (allOutputs : List BackendOutput)
    (output : BackendOutput) : OutputConfigurationStore :=
  match store.findOutputIndex output allOutputs with
  | none => store
  | some outputIndex =>
    { outputs := store.outputs.modify outputIndex fun state => output.outputState state.uuid
      setups  := store.setups.modify setup (·.store (output.setupState outputIndex)) }

def storeConfig (store : OutputConfigurationStore) (createUuid : Nat → String) (allOutputs : List BackendOutput)
    (isLidClosed : Bool) : OutputConfigurationStore :=
  let relevantOutputs := allOutputs.filter (·.isRelevant)
  if relevantOutputs.isEmpty then
    store
  else
    let registered := store.registerOutputs createUuid allOutputs
    match registered.findSetup relevantOutputs isLidClosed with
    | some setup => relevantOutputs.foldl (·.storeOutput setup allOutputs) registered
    | none =>
      let added := { registered with setups := registered.setups ++ [{ lidClosed := isLidClosed }] }
      relevantOutputs.foldl (·.storeOutput registered.setups.length allOutputs) added

end OutputConfigurationStore
end KWin
