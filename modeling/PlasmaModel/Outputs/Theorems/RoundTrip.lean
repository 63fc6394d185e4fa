import PlasmaModel.Outputs.Theorems.Repair

namespace KWin

variable {document : QJsonValue} {outputs setups : List QJsonValue} {outputDatas : List (Option OutputState)}
variable {state output : OutputState} {n : Nat}

namespace OutputConfigurationStore

variable {store : OutputConfigurationStore}

-- What holds of every store that has been loaded.
structure Clean (store : OutputConfigurationStore) : Prop where
  outputs         : ∀ output ∈ store.outputs, output.toOutputIdentification ≠ {} ∧
    ∃ data, Repaired (loadOutputState data) output
  identifications : store.identifications.Nodup
  uuids           : store.uuids.Nodup
  setups          : ∀ setup ∈ store.setups, setup.Valid (store.outputs.map some)
  distinct        : Distinct store.setups

def reloaded (output : OutputState) : OutputState :=
  loadOutputState (saveOutputState output).toObject

theorem Repaired.identification (h : Repaired state output) :
    state.toOutputIdentification = output.toOutputIdentification :=
  have hsame := congrArg OutputState.toOutputIdentification h.same
  hsame.symm

theorem Repaired.colorProfileSource (h : Repaired state output) :
    state.colorProfileSource = output.colorProfileSource :=
  have hsame := congrArg OutputState.colorProfileSource h.same
  hsame.symm

theorem Repaired.reloaded {data : QJsonObject} (h : Repaired (loadOutputState data) output) :
    OutputConfigurationStore.reloaded output =
      { output with colorProfileSource := some (output.colorProfileSource.getD
          (defaultColorProfileSource (saveOutputState output).toObject)) } :=
  loadOutputState_saved h.same h.uuid

theorem repair_of_nodup {repaired list : List OutputState} (setups : List Setup)
    (h : ((repaired ++ list).filterMap (·.uuid)).Nodup) :
    (repair repaired (list.map some) setups) = ⟨repaired ++ list, setups⟩ := by
  induction list generalizing repaired
  case nil =>
    rw [List.append_nil]
    rfl
  case cons state list ih =>
    have hsame (count : Nat) (hc : count = (repaired ++ state :: list).countP (·.uuid == state.uuid)) :
        (if 1 < count then { state with uuid := none } else state) = state := by
      split
      case isTrue hcount =>
        cases hu : state.uuid
        case none => exact hu ▸ rfl
        case some uuid =>
          have hone := List.nodup_iff_count_le_one.mp h uuid
          rw [List.count_filterMap, ← hu, ← hc] at hone
          omega
      case isFalse => rfl
    have hcount : (repaired ++ state :: list).countP (·.uuid == state.uuid) =
        repaired.countP (·.uuid == state.uuid) +
          (some state :: list.map some).countP fun data => data.any (·.uuid == state.uuid) := by
      rw [List.countP_append, ← List.map_cons, List.countP_map]
      rfl
    have hrest := @ih (repaired ++ [state]) (by rwa [List.append_assoc])
    simp only [List.map_cons, repair]
    rw [hsame _ hcount.symm, hrest, List.append_assoc]
    rfl

namespace Clean

theorem reloaded (h : store.Clean) {output : OutputState} (ho : output ∈ store.outputs) :
    OutputConfigurationStore.reloaded output =
      { output with colorProfileSource := some (output.colorProfileSource.getD
          (defaultColorProfileSource (saveOutputState output).toObject)) } :=
  have ⟨_, _, hrepaired⟩ := h.outputs output ho
  hrepaired.reloaded

theorem loadOutputs_save (h : store.Clean) :
    loadOutputs (store.outputs.map saveOutputState) =
      (store.outputs.map OutputConfigurationStore.reloaded).map some := by
  have hloaded := loadOutputs_loaded (store.outputs.map saveOutputState)
  have hid (output : OutputState) (ho : output ∈ store.outputs) :
      loadIdentification (saveOutputState output).toObject = output.toOutputIdentification :=
    congrArg OutputState.toOutputIdentification (h.reloaded ho)
  apply List.ext_getElem?
  intro n
  rw [List.map_map, List.getElem?_map]
  cases hn : store.outputs[n]?
  case none =>
    have hlen := List.getElem?_eq_none_iff.mp hn
    rw [List.getElem?_eq_none (by rw [hloaded.length, List.length_map]; exact hlen)]
    rfl
  case some output =>
    have ho := List.mem_of_getElem? hn
    refine (hloaded.loaded n _).mpr ⟨saveOutputState output, ⟨?_, ?_, ?_⟩, rfl⟩
    case refine_1 => rw [List.getElem?_map, hn, Option.map_some]
    case refine_2 =>
      rw [hid output ho]
      exact (h.outputs output ho).1
    case refine_3 =>
      intro m hm other hother heq
      rw [List.getElem?_map] at hother
      have ⟨earlier, hearlier, hs⟩ := Option.map_eq_some_iff.mp hother
      rw [← hs, hid output ho, hid earlier (List.mem_of_getElem? hearlier)] at heq
      have hmap (m : Nat) {output : OutputState} (hm : store.outputs[m]? = some output) :
          store.identifications[m]? = some output.toOutputIdentification := by
        rw [OutputConfigurationStore.identifications, List.getElem?_map, hm, Option.map_some]
      have := nodup_iff.mp h.identifications m n _ (hmap m hearlier) (heq ▸ hmap n hn)
      omega

theorem load_save (h : store.Clean) :
    load (save store) = { store with outputs := store.outputs.map OutputConfigurationStore.reloaded } := by
  have houtputs : dataOf "outputs" (save store) = some (store.outputs.map saveOutputState) := rfl
  have hsetups : dataOf "setups" (save store) = some (store.setups.map (·.save)) := rfl
  have huuids : (store.outputs.map OutputConfigurationStore.reloaded).filterMap (·.uuid) = store.uuids := by
    rw [List.filterMap_map, OutputConfigurationStore.uuids]
    apply List.filterMap_congr
    intro output ho
    rw [Function.comp_apply, h.reloaded ho]
  have hvalid : ∀ setup ∈ store.setups,
      setup.Valid ((store.outputs.map OutputConfigurationStore.reloaded).map some) := by
    intro setup hs
    have hv := h.setups setup hs
    refine { hv with states := fun setupState hstate => ?_ }
    have hv := hv.states setupState hstate
    obtain ⟨shared, hshared, hsource⟩ := hv.shared
    rw [List.getElem?_map] at hshared
    obtain ⟨output, ho, heq⟩ := Option.map_eq_some_iff.mp hshared
    cases heq
    refine { hv with shared := ⟨OutputConfigurationStore.reloaded shared, ?_, ?_⟩ }
    case refine_1 => rw [List.map_map, List.getElem?_map, ho]; rfl
    case refine_2 =>
      rw [h.reloaded (List.mem_of_getElem? ho)]
      exact hsource
  rw [load, houtputs, hsetups]
  dsimp only
  rw [h.loadOutputs_save, loadSetups_save hvalid h.distinct, repair_of_nodup]
  case h =>
    rw [List.nil_append, huuids]
    exact h.uuids
  rfl

-- A source of color profiles that is not known is replaced.
theorem load_save_iff (h : store.Clean) :
    load (save store) = store ↔ ∀ output ∈ store.outputs, output.colorProfileSource.isSome := by
  have hsame {output : OutputState} (ho : output ∈ store.outputs) :
      OutputConfigurationStore.reloaded output = output ↔ output.colorProfileSource.isSome := by
    rw [h.reloaded ho]
    cases hs : output.colorProfileSource
    case none =>
      apply iff_of_false ?_ Bool.false_ne_true
      intro heq
      have hsource := congrArg OutputState.colorProfileSource heq
      rw [hs] at hsource
      cases hsource
    case some source =>
      apply iff_of_true ?_ rfl
      rw [Option.getD_some, ← hs]
  rw [h.load_save]
  apply Iff.intro
  case mp =>
    intro heq output ho
    have houtputs : store.outputs.map OutputConfigurationStore.reloaded = store.outputs.map id :=
      (congrArg OutputConfigurationStore.outputs heq).trans (List.map_id _).symm
    exact (hsame ho).mp (List.map_inj_left.mp houtputs output ho)
  case mpr =>
    intro hsome
    have houtputs : store.outputs.map OutputConfigurationStore.reloaded = store.outputs.map id :=
      List.map_congr_left fun output ho => (hsame ho).mpr (hsome output ho)
    rw [houtputs, List.map_id]

end Clean

theorem forall₂_getElem? {α β : Type} {R : α → β → Prop} {l : List α} {l' : List β} (h : List.Forall₂ R l l') {a : α}
    (hn : l[n]? = some a) : ∃ b, l'[n]? = some b ∧ R a b := by
  induction h generalizing n
  case nil => cases hn
  case cons c d l l' hcd _ ih =>
    cases n
    case zero =>
      cases hn
      exact ⟨d, rfl, hcd⟩
    case succ n => exact ih hn

theorem forall₂_map_eq {α β γ : Type} {R : α → β → Prop} {f : α → γ} {g : β → γ} (hfg : ∀ a b, R a b → f a = g b)
    {l : List α} {l' : List β} (h : List.Forall₂ R l l') : l.map f = l'.map g := by
  induction h
  case nil => rfl
  case cons a b l l' hab _ ih => rw [List.map_cons, List.map_cons, hfg a b hab, ih]

-- An entry that is loaded gets to its place among those that are.
theorem repair_getElem? (hn : outputDatas[n]? = some (some state)) (setups : List Setup) :
    ∃ output, (repair [] outputDatas setups).outputs[place (outputDatas.map Option.isSome) n]? = some output ∧
      Repaired state output := by
  have ⟨rest, heq, hrest⟩ := repair_outputs [] outputDatas setups
  rw [heq]
  exact forall₂_getElem? hrest (reduceOption_place hn)

theorem present_of_getElem? (hn : outputDatas[n]? = some (some state)) :
    (outputDatas.map Option.isSome)[n]? = some true := by
  rw [List.getElem?_map, hn]
  rfl

theorem Loaded.reduceOption_nodup (h : Loaded outputs outputDatas) :
    (outputDatas.reduceOption.map (·.toOutputIdentification)).Nodup := by
  have hfilter : outputDatas.reduceOption.map (·.toOutputIdentification) =
      outputDatas.filterMap fun data => data.map (·.toOutputIdentification) := List.map_filterMap ..
  rw [hfilter, nodup_filterMap_iff]
  intro i j data other id hi hj hid hid'
  have ⟨state, hs, heq⟩ := Option.map_eq_some_iff.mp hid
  have ⟨state', hs', heq'⟩ := Option.map_eq_some_iff.mp hid'
  exact h.distinct (hs ▸ hi) (hs' ▸ hj) (heq.trans heq'.symm)

theorem moved_valid {setup : Setup} {outputs : List OutputState} (h : setup.Valid outputDatas)
    (hplaces : ∀ n state, outputDatas[n]? = some (some state) →
      ∃ output, outputs[place (outputDatas.map Option.isSome) n]? = some output ∧ Repaired state output) :
    (setup.moved (place (outputDatas.map Option.isSome))).Valid (outputs.map some) where
  states  := by
    intro moved hmem
    obtain ⟨setupState, hs, heq⟩ := List.mem_map.mp hmem
    subst heq
    have hv := h.states setupState hs
    obtain ⟨shared, hshared, hsource⟩ := hv.shared
    obtain ⟨output, ho, hrepaired⟩ := hplaces _ shared hshared
    refine { hv with shared := ⟨output, ?_, ?_⟩, index := ?_ }
    case refine_1 => rw [List.getElem?_map, ho, Option.map_some]
    case refine_2 =>
      apply hsource.imp_right
      intro hne heq
      cases hrepaired.uuid
      case inl hnone => exact absurd (hnone.symm.trans heq) (by simp)
      case inr hsame => exact hne (hsame.symm.trans heq)
    case refine_3 =>
      exact Int.lt_of_le_of_lt (Int.ofNat_le.mpr (place_le _ setupState.outputIndex)) hv.index
  nodup   := by
    have hmap : (setup.moved (place (outputDatas.map Option.isSome))).outputs.map (·.outputIndex) =
        (setup.outputs.map (·.outputIndex)).map (place (outputDatas.map Option.isSome)) := by
      rw [Setup.moved, List.map_map, List.map_map]
      rfl
    rw [hmap]
    apply List.Nodup.map_on ?_ h.nodup
    intro i hi j hj heq
    obtain ⟨s, hs, hsi⟩ := List.mem_map.mp hi
    obtain ⟨t, ht, htj⟩ := List.mem_map.mp hj
    obtain ⟨_, hshared, _⟩ := (h.states s hs).shared
    obtain ⟨_, hshared', _⟩ := (h.states t ht).shared
    exact place_inj (hsi ▸ present_of_getElem? hshared) (htj ▸ present_of_getElem? hshared') heq
  enabled := by
    obtain ⟨setupState, hs, henabled⟩ := h.enabled
    exact ⟨_, List.mem_map_of_mem hs, henabled⟩

theorem moved_hasSameOutputs {setup other : Setup} (h : setup.Valid outputDatas) (h' : other.Valid outputDatas)
    (hsame : (setup.moved (place (outputDatas.map Option.isSome))).hasSameOutputs
      (other.moved (place (outputDatas.map Option.isSome)))) : setup.hasSameOutputs other := by
  simp only [Setup.hasSameOutputs, Setup.moved, Bool.and_eq_true, beq_iff_eq, List.length_map, List.all_eq_true,
    List.any_eq_true, List.mem_map] at hsame ⊢
  obtain ⟨hboth, hall⟩ := hsame
  refine ⟨hboth, fun s hs => ?_⟩
  obtain ⟨_, ⟨t, ht, heq⟩, hplace⟩ := hall _ ⟨s, hs, rfl⟩
  subst heq
  obtain ⟨_, hshared, _⟩ := (h.states s hs).shared
  obtain ⟨_, hshared', _⟩ := (h'.states t ht).shared
  exact ⟨t, ht, place_inj (present_of_getElem? hshared') (present_of_getElem? hshared) hplace⟩

theorem repair_clean (outputs setups : List QJsonValue) :
    Clean (repair [] (loadOutputs outputs) (loadSetups (loadOutputs outputs) setups)) := by
  have hloaded := loadOutputs_loaded outputs
  obtain ⟨hdistinct, hfrom⟩ := loadSetups_loaded (loadOutputs outputs) setups
  have hvalid : ∀ setup ∈ loadSetups (loadOutputs outputs) setups, setup.Valid (loadOutputs outputs) := by
    intro setup hs
    obtain ⟨_, _, hload⟩ := hfrom setup hs
    exact (Setup.load_valid hload).1
  have hsetups := @repair_setups [] (loadOutputs outputs) (loadSetups (loadOutputs outputs) setups) fun setup hs => by
    intro setupState hstate
    obtain ⟨_, hshared, _⟩ := ((hvalid setup hs).states setupState hstate).shared
    exact present_of_getElem? hshared
  obtain ⟨rest, houtputs, hrest⟩ :=
    repair_outputs [] (loadOutputs outputs) (loadSetups (loadOutputs outputs) setups)
  rw [List.nil_append] at houtputs
  have hids : (loadOutputs outputs).reduceOption.map (·.toOutputIdentification) =
      rest.map (·.toOutputIdentification) :=
    forall₂_map_eq (fun _ _ hrepaired => hrepaired.identification) hrest
  exact {
    outputs         := by
      intro output ho
      rw [houtputs] at ho
      obtain ⟨n, hn⟩ := List.mem_iff_getElem?.mp ho
      obtain ⟨state, hs, hrepaired⟩ := forall₂_getElem? hrest.flip hn
      obtain ⟨m, hm⟩ := List.mem_iff_getElem?.mp (List.reduceOption_mem_iff.mp (List.mem_of_getElem? hs))
      obtain ⟨entry, hfirst, heq⟩ := (hloaded.loaded m state).mp hm
      subst heq
      exact ⟨hrepaired.identification ▸ hfirst.identified, _, hrepaired⟩
    identifications := by
      rw [identifications, houtputs, ← hids]
      exact hloaded.reduceOption_nodup
    uuids           := repair_uuids _ List.nodup_nil fun _ hu => absurd hu List.not_mem_nil
    setups          := by
      rw [hsetups]
      intro setup hs
      obtain ⟨original, ho, heq⟩ := List.mem_map.mp hs
      exact heq ▸ moved_valid (hvalid original ho) fun n state hn => repair_getElem? hn _
    distinct        := by
      rw [hsetups, Distinct, List.pairwise_map]
      apply hdistinct.imp_of_mem
      intro setup other hs ho hne hsame
      exact hne (moved_hasSameOutputs (hvalid other ho) (hvalid setup hs) hsame) }

theorem load_clean (document : QJsonValue) : Clean (load document) := by
  rw [load]
  split
  case h_1 outputs setups _ _ => exact repair_clean outputs setups
  case h_2 =>
    exact {
      outputs         := fun _ ho => absurd ho List.not_mem_nil
      identifications := List.nodup_nil
      uuids           := List.nodup_nil
      setups          := fun _ hs => absurd hs List.not_mem_nil
      distinct        := .nil }

-- The state of an output in a setup is for the entry that the index in the file denotes.
def ReadFrom (outputs : List QJsonValue) (store : OutputConfigurationStore) (output : QJsonValue)
    (setupState : SetupState) : Prop :=
  ∃ (n : Nat) (entry : QJsonValue), (output.toObject.lookup "outputIndex").map (·.toInt (-1)) = some (n : Int) ∧
    FirstOfItsKind outputs n entry ∧
    ∃ state, store.outputs[setupState.outputIndex]? = some state ∧ Repaired (loadOutputState entry.toObject) state

structure LoadedFrom (document : QJsonValue) (store : OutputConfigurationStore) : Prop where
  read     : ∀ setup ∈ store.setups, ∃ outputs setups value,
    dataOf "outputs" document = some outputs ∧ dataOf "setups" document = some setups ∧ value ∈ setups ∧
      List.Forall₂ (ReadFrom outputs store) (value.toObject.value "outputs").toArray setup.outputs
  enabled  : ∀ setup ∈ store.setups, ∃ setupState ∈ setup.outputs, setupState.enabled
  once     : ∀ setup ∈ store.setups, (setup.outputs.map (·.outputIndex)).Nodup
  distinct : store.setups.Pairwise fun setup other => ¬(setup.lidClosed = other.lidClosed ∧
    ∀ i, i ∈ setup.outputs.map (·.outputIndex) ↔ i ∈ other.outputs.map (·.outputIndex))
  uuids    : store.uuids.Nodup

-- Every entry that is loaded has a known source of color profiles, or none.
def SourcesKnown (document : QJsonValue) : Prop :=
  ∀ outputs setups, dataOf "outputs" document = some outputs → dataOf "setups" document = some setups →
    ∀ n entry, FirstOfItsKind outputs n entry →
      ∀ value, entry.toObject.lookup "colorProfileSource" = some value →
        (OutputField.profileSources.lookup value.toString).isSome

theorem hasSameOutputs_of_mem_iff {setup other : Setup} (h : (setup.outputs.map (·.outputIndex)).Nodup)
    (h' : (other.outputs.map (·.outputIndex)).Nodup) (hlid : setup.lidClosed = other.lidClosed)
    (hmem : ∀ i, i ∈ setup.outputs.map (·.outputIndex) ↔ i ∈ other.outputs.map (·.outputIndex)) :
    other.hasSameOutputs setup := by
  have hlen := ((List.perm_ext_iff_of_nodup h h').mpr hmem).length_eq
  rw [List.length_map, List.length_map] at hlen
  simp only [Setup.hasSameOutputs, Bool.and_eq_true, beq_iff_eq, List.all_eq_true, List.any_eq_true]
  refine ⟨⟨hlid.symm, hlen.symm⟩, fun state hs => ?_⟩
  have ⟨other, ho, heq⟩ := List.mem_map.mp ((hmem _).mpr (List.mem_map_of_mem hs))
  exact ⟨other, ho, heq⟩

theorem loadOutputState_source {data : QJsonObject} : (loadOutputState data).colorProfileSource.isSome ↔
    ∀ value, data.lookup "colorProfileSource" = some value →
      (OutputField.profileSources.lookup value.toString).isSome := by
  have hsource : (loadOutputState data).colorProfileSource =
      if (data.lookup "colorProfileSource").isSome then
        (data.lookup "colorProfileSource").bind fun value => OutputField.profileSources.lookup value.toString
      else some (defaultColorProfileSource data) := rfl
  rw [hsource]
  cases data.lookup "colorProfileSource"
  case none => exact iff_of_true rfl fun _ h => absurd h nofun
  case some value =>
    apply Iff.intro
    case mp => exact fun h _ he => Option.some.inj he ▸ h
    case mpr => exact fun h => h value rfl

theorem sourcesKnown_iff (document : QJsonValue) :
    SourcesKnown document ↔ ∀ output ∈ (load document).outputs, output.colorProfileSource.isSome := by
  rw [load]
  split
  case h_1 outputs setups houtputs hsetups =>
    have hloaded := loadOutputs_loaded outputs
    have ⟨rest, heq, hrest⟩ := repair_outputs [] (loadOutputs outputs) (loadSetups (loadOutputs outputs) setups)
    rw [heq, List.nil_append]
    apply Iff.intro
    case mp =>
      intro h output ho
      have ⟨n, hn⟩ := List.mem_iff_getElem?.mp ho
      have ⟨state, hs, hrepaired⟩ := forall₂_getElem? hrest.flip hn
      have ⟨m, hm⟩ := List.mem_iff_getElem?.mp (List.reduceOption_mem_iff.mp (List.mem_of_getElem? hs))
      have ⟨entry, hfirst, heq⟩ := (hloaded.loaded m state).mp hm
      rw [← hrepaired.colorProfileSource, heq, loadOutputState_source]
      exact h outputs setups houtputs hsetups m entry hfirst
    case mpr =>
      intro h outputs' setups' houtputs' hsetups' n entry hfirst
      cases houtputs.symm.trans houtputs'
      have hn := (hloaded.loaded n _).mpr ⟨entry, hfirst, rfl⟩
      have ⟨output, ho, hrepaired⟩ := forall₂_getElem? hrest (reduceOption_place hn)
      rw [← loadOutputState_source, hrepaired.colorProfileSource]
      exact h output (List.mem_of_getElem? ho)
  case h_2 hnone =>
    apply iff_of_true
    case ha => exact fun outputs setups houtputs hsetups => absurd hsetups (hnone outputs setups houtputs)
    case hb => exact fun _ ho => absurd ho List.not_mem_nil

theorem load_read (document : QJsonValue) : ∀ setup ∈ (load document).setups, ∃ outputs setups value,
    dataOf "outputs" document = some outputs ∧ dataOf "setups" document = some setups ∧ value ∈ setups ∧
      List.Forall₂ (ReadFrom outputs (load document)) (value.toObject.value "outputs").toArray setup.outputs := by
  rw [load]
  split
  case h_1 outputs setups houtputs hsetups =>
    have hloaded := loadOutputs_loaded outputs
    have ⟨_, hfrom⟩ := loadSetups_loaded (loadOutputs outputs) setups
    have hmoved := @repair_setups [] (loadOutputs outputs) (loadSetups (loadOutputs outputs) setups) fun setup hs => by
      intro setupState hstate
      have ⟨_, _, hload⟩ := hfrom setup hs
      have ⟨_, hshared, _⟩ := ((Setup.load_valid hload).1.states setupState hstate).shared
      exact present_of_getElem? hshared
    rw [hmoved]
    intro setup hs
    have ⟨original, ho, heq⟩ := List.mem_map.mp hs
    subst heq
    have ⟨value, hvalue, hload⟩ := hfrom original ho
    have ⟨hvalid, hdenotes⟩ := Setup.load_valid hload
    refine ⟨outputs, setups, value, houtputs, hsetups, hvalue, List.forall₂_map_right_iff.mpr ?_⟩
    have hboth : List.Forall₂ (fun output setupState =>
        setupState.Valid (loadOutputs outputs) ∧ SetupState.Denotes output setupState)
        (value.toObject.value "outputs").toArray original.outputs :=
      ((List.forall₂_and_left _ _).mpr ⟨hvalid.states, hdenotes.flip⟩).flip
    apply hboth.imp
    intro output setupState ⟨hstate, hdenotes⟩
    have ⟨shared, hshared, _⟩ := hstate.shared
    have ⟨entry, hfirst, heq⟩ := (hloaded.loaded _ shared).mp hshared
    have ⟨state, hs, hrepaired⟩ := repair_getElem? hshared (loadSetups (loadOutputs outputs) setups)
    exact ⟨setupState.outputIndex, entry, hdenotes, hfirst, state, hs, heq ▸ hrepaired⟩
  case h_2 => exact fun _ hs => absurd hs List.not_mem_nil

theorem load_loadedFrom (document : QJsonValue) : LoadedFrom document (load document) where
  read     := load_read document
  enabled  := fun setup hs => ((load_clean document).setups setup hs).enabled
  once     := fun setup hs => ((load_clean document).setups setup hs).nodup
  distinct := by
    have hclean := load_clean document
    apply hclean.distinct.imp_of_mem
    intro setup other hs ho hne ⟨hlid, hmem⟩
    exact hne (hasSameOutputs_of_mem_iff (hclean.setups setup hs).nodup (hclean.setups other ho).nodup hlid hmem)
  uuids    := (load_clean document).uuids

-- An entry with a source of color profiles that is not known is read as one without, and the next time as one with the
-- default.
theorem load_save_load_iff (document : QJsonValue) :
    LoadedFrom document (load document) ∧
      (load (save (load document)) = load document ↔ SourcesKnown document) :=
  ⟨load_loadedFrom document, (load_clean document).load_save_iff.trans (sourcesKnown_iff document).symm⟩

theorem load_save_load_unknownSource :
    let document : QJsonValue := .array [
      .object [("name", .string "outputs"), ("data", .array [
        .object [("connectorName", .string "DP-1"), ("colorProfileSource", .string "DisplayP3")]])],
      .object [("name", .string "setups"), ("data", .array [])]]
    load (save (load document)) ≠ load document :=
  fun heq => absurd (congrArg (·.outputs.map (·.colorProfileSource)) heq) (by decide)

end OutputConfigurationStore
end KWin
