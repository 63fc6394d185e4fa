import PlasmaModel.Outputs.Theorems.Generate

namespace KWin

namespace OutputConfiguration

-- The configurations agree about everything except where the outputs are.
def AgreesButPos (config config' : OutputConfiguration) : Prop :=
  ∀ name, ∃ pos, config'.changeSet name = { config.changeSet name with pos }

namespace AgreesButPos

variable {config config' config'' : OutputConfiguration}

theorem refl (config : OutputConfiguration) : AgreesButPos config config :=
  fun _ => ⟨_, rfl⟩

theorem trans (h : AgreesButPos config config') (h' : AgreesButPos config' config'') :
    AgreesButPos config config'' := by
  intro name
  have ⟨_, hpos⟩ := h name
  have ⟨pos, hpos'⟩ := h' name
  exact ⟨pos, by rw [hpos', hpos]⟩

theorem isEnabled (h : AgreesButPos config config') (output : ConnectedOutput) :
    config'.isEnabled output = config.isEnabled output := by
  have ⟨_, hpos⟩ := h output.name
  rw [OutputConfiguration.isEnabled, OutputConfiguration.isEnabled, hpos]

theorem exactSize (h : AgreesButPos config config') (output : ConnectedOutput) :
    config'.exactSize output = config.exactSize output := by
  have ⟨_, hpos⟩ := h output.name
  simp only [OutputConfiguration.exactSize, OutputConfiguration.modeSize, hpos]

end AgreesButPos
end OutputConfiguration

namespace OutputConfigurationStore

open OutputConfiguration

variable {outputs before after : List ConnectedOutput} {internalPos : QPoint} {internalSize : QSize}
  {config : OutputConfiguration} {output other : ConnectedOutput}

section

variable (outputs internalPos internalSize config)

end

section

variable {l : List ConnectedOutput} (hl : l = before ++ output :: after) (hn : (l.map (·.name)).Nodup)
include hl hn

end

variable {defaults : OutputDefaults} {store : OutputConfigurationStore} {setup : Setup} {internal : ConnectedOutput}

def panel : ConnectedOutput :=
  { screen "eDP-1" "p" with isInternal := true }

def large : ConnectedOutput :=
  { screen "DP-1" "a" with modeline := ⟨⟨3840, 2160⟩, 60000, 0⟩ }

instance (config : OutputConfiguration) (outputs : List ConnectedOutput) : Decidable (config.Apart outputs) :=
  inferInstanceAs (Decidable (List.Pairwise _ _))

end OutputConfigurationStore
end KWin
