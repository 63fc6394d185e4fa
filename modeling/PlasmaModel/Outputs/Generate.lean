import Mathlib.Data.List.MinMax
import PlasmaModel.Outputs.Transform

namespace KWin

structure OutputMode where
  modeline  : OutputModeline
  isRemoved : Bool

structure ConnectedOutput extends BackendOutput where
  isInternal       : Bool
  modes            : List OutputMode
  scale            : ℚ
  panelOrientation : OutputTransform

-- The settings that say where an output is and how large, with those kept alongside. Numbers do not overflow.
structure OutputChangeSet where
  currentMode       : Option OutputModeline := none
  desiredMode       : Option OutputModeline := none
  enabled           : Option Bool := none
  pos               : Option QPoint := none
  scale             : Option ℚ := none
  scaleSetting      : Option ℚ := none
  transform         : Option OutputTransform := none
  manualTransform   : Option OutputTransform := none
  uuid              : Option String := none
  replicationSource : Option String := none
  priority          : Option Int := none

-- The names of outputs are those of their connectors, no two of which are the same.
structure OutputConfiguration where
  changeSet : String → OutputChangeSet

namespace OutputConfiguration

def empty : OutputConfiguration where
  changeSet _ := {}

def set (config : OutputConfiguration) (output : ConnectedOutput) (changeSet : OutputChangeSet) :
    OutputConfiguration where
  changeSet := Function.update config.changeSet output.name changeSet

variable (config : OutputConfiguration) (output : ConnectedOutput)

def isEnabled : Bool :=
  (config.changeSet output.name).enabled.getD output.isEnabled

def position : QPoint :=
  (config.changeSet output.name).pos.getD output.position

def modeSize : QSize :=
  ((config.changeSet output.name).currentMode.getD output.modeline).size

end OutputConfiguration

-- What is chosen for an output that has no usable setting, and the mode that a definition of a custom mode stands for.
structure OutputDefaults where
  custom      : CustomModeDefinition → OutputModeline
  chooseMode  : ConnectedOutput → OutputModeline
  chooseScale : ConnectedOutput → QSize → ℚ

namespace OutputModeline

def isCustom (modeline : OutputModeline) : Bool :=
  modeline.flags &&& 8 ≠ 0

def matchModes (modeline : OutputModeline) (modes : List OutputMode) : Bool :=
  modes.any fun mode => !mode.isRemoved && mode.modeline == modeline

def matchDefinitions (defaults : OutputDefaults) (modeline : OutputModeline) (definitions : List CustomModeDefinition) :
    Bool :=
  definitions.any fun definition => defaults.custom definition == modeline

end OutputModeline

-- The stored mode, if the output still has it.
def effectiveMode (defaults : OutputDefaults) (state : OutputState) (output : ConnectedOutput) :
    Option OutputModeline :=
  state.mode.bind fun mode =>
    if mode.isCustom then
      if state.customModes.any (mode.matchDefinitions defaults) then some mode else none
    else if mode.matchModes output.modes then
      some mode
    else
      let sameMode := output.modes.find? fun other =>
        !other.isRemoved && mode.size == other.modeline.size && mode.refreshRate == other.modeline.refreshRate
      sameMode.map (·.modeline)

namespace OutputConfigurationStore

variable (defaults : OutputDefaults) (store : OutputConfigurationStore)

def indexOf (outputs : List ConnectedOutput) (output : ConnectedOutput) : Option Nat :=
  store.findOutputIndex output.toBackendOutput (outputs.map (·.toBackendOutput))

def existingData (outputs : List ConnectedOutput) (output : ConnectedOutput) : OutputState :=
  ((store.indexOf outputs output).bind (store.outputs[·]?)).getD {}

def stateIn (setup : Setup) (outputs : List ConnectedOutput) (output : ConnectedOutput) : Option SetupState :=
  (store.indexOf outputs output).bind fun index => setup.outputs.find? (·.outputIndex == index)

-- Where an output comes when the place of the internal one is free.
def shifted (internalPos : QPoint) (internalSize : QSize) (otherPos : QPoint) : QPoint where
  x := if otherPos.x ≥ internalPos.x + internalSize.width then otherPos.x - internalSize.width else otherPos.x
  y := if otherPos.y ≥ internalPos.y + internalSize.height then otherPos.y - internalSize.height else otherPos.y

structure Placed where
  config            : OutputConfiguration := .empty
  rightMostPosition : QPoint := ⟨0, 0⟩
  priority          : Int := 0

def enable (outputs : List ConnectedOutput) (isLidClosed : Bool) (output : ConnectedOutput) : Bool :=
  !isLidClosed || !output.isInternal || outputs.length == 1

def modelineFor (outputs : List ConnectedOutput) (output : ConnectedOutput) : OutputModeline :=
  (effectiveMode defaults (store.existingData outputs output) output).getD (defaults.chooseMode output)

def scaleSettingFor (outputs : List ConnectedOutput) (output : ConnectedOutput) : ℚ :=
  (store.existingData outputs output).scaleSetting.getD
    (defaults.chooseScale output (store.modelineFor defaults outputs output).size)

def transformFor (outputs : List ConnectedOutput) (output : ConnectedOutput) : OutputTransform :=
  (store.existingData outputs output).transform.getD output.panelOrientation

def modeSizeFor (outputs : List ConnectedOutput) (output : ConnectedOutput) : Size :=
  let size := (store.modelineFor defaults outputs output).size
  (store.transformFor outputs output).mapSize ⟨size.width, size.height⟩

-- There is no configuration of KScreen to fall back to.
def place (outputs : List ConnectedOutput) (isLidClosed : Bool) (closestSetup : Option Setup) (placed : Placed)
    (output : ConnectedOutput) : Placed :=
  let setupState := closestSetup.bind (store.stateIn · outputs output)
  let existingData := store.existingData outputs output
  let modeline := store.modelineFor defaults outputs output
  let enabled := setupState.elim (enable outputs isLidClosed output) (·.enabled)
  let pos := setupState.elim placed.rightMostPosition (·.position)
  let width := (store.modeSizeFor defaults outputs output).width / store.scaleSettingFor defaults outputs output
  let topRight : QPoint := ⟨⌈pos.x + width⌉, pos.y⟩
  {
    config            := placed.config.set output {
      currentMode     := modeline
      desiredMode     := modeline
      enabled
      pos
      scaleSetting    := store.scaleSettingFor defaults outputs output
      transform       := store.transformFor outputs output
      manualTransform := existingData.manualTransform.getD output.panelOrientation
      uuid            := existingData.uuid
      priority        := setupState.elim placed.priority (·.priority)
    }
    rightMostPosition :=
      if enabled && (topRight.x > placed.rightMostPosition.x ||
          topRight.x == placed.rightMostPosition.x && topRight.y < placed.rightMostPosition.y) then
        topRight
      else
        placed.rightMostPosition
    priority          := setupState.elim (placed.priority + 1) fun state => max (state.priority + 1) placed.priority
  }

end OutputConfigurationStore
end KWin
