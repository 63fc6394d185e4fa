import PlasmaModel.Outputs.Theorems.Identify

namespace KWin

variable {store store' : OutputConfigurationStore} {outputs : List BackendOutput} {output other : BackendOutput}
variable {createUuid : Nat → String} {i k : Nat}

namespace Setup

variable {states : List SetupState} {state : SetupState}

theorem map_storeState : (storeState state states).map (·.outputIndex) =
    if state.outputIndex ∈ states.map (·.outputIndex) then states.map (·.outputIndex)
    else states.map (·.outputIndex) ++ [state.outputIndex] := by
  induction states
  case nil => rfl
  case cons other states ih =>
    rw [storeState]
    split
    case isTrue he => simp [he]
    case isFalse hne =>
      simp only [List.map_cons, ih, List.mem_cons, Ne.symm hne, false_or]
      split <;> rfl

theorem storeState_nodup (h : (states.map (·.outputIndex)).Nodup) :
    ((storeState state states).map (·.outputIndex)).Nodup := by
  rw [map_storeState]
  split
  case isTrue => exact h
  case isFalse hne =>
    apply h.append (List.nodup_singleton _)
    intro index hi hmem
    exact hne (List.mem_singleton.mp hmem ▸ hi)

theorem mem_storeState (h : (states.map (·.outputIndex)).Nodup) {e : SetupState} :
    e ∈ storeState state states ↔ e = state ∨ e ∈ states ∧ e.outputIndex ≠ state.outputIndex := by
  induction states
  case nil => simp [storeState]
  case cons other states ih =>
    have ⟨hnot, h⟩ := List.nodup_cons.mp h
    rw [storeState]
    split
    case isTrue he =>
      have hne : ∀ e ∈ states, e.outputIndex ≠ state.outputIndex :=
        fun e hmem heq => hnot (List.mem_map.mpr ⟨e, hmem, heq.trans he.symm⟩)
      rw [List.mem_cons, List.mem_cons]
      apply or_congr_right
      apply Iff.intro
      case mp => exact fun hmem => ⟨.inr hmem, hne e hmem⟩
      case mpr => exact fun ⟨hmem, hi⟩ => hmem.resolve_left fun heq => hi (heq ▸ he)
    case isFalse hne =>
      rw [List.mem_cons, List.mem_cons, ih h, or_and_right, ← or_assoc, ← or_assoc]
      apply or_congr_left
      rw [or_comm]
      apply or_congr_right
      exact Iff.symm (and_iff_left_of_imp fun heq => heq ▸ hne)

-- States that are stored for different entries do not replace each other.
theorem foldl_store {news : List SetupState} (hnews : (news.map (·.outputIndex)).Nodup) {setup : Setup}
    (h : (setup.outputs.map (·.outputIndex)).Nodup) :
    (news.foldl Setup.store setup).lidClosed = setup.lidClosed ∧
      ((news.foldl Setup.store setup).outputs.map (·.outputIndex)).Nodup ∧
      ∀ e, e ∈ (news.foldl Setup.store setup).outputs ↔
        e ∈ news ∨ e ∈ setup.outputs ∧ ∀ new ∈ news, e.outputIndex ≠ new.outputIndex := by
  induction news generalizing setup
  case nil => exact ⟨rfl, h, fun e => by simp⟩
  case cons new news ih =>
    have ⟨hnew, hnews⟩ := List.nodup_cons.mp hnews
    have ⟨hlid, hnodup, hmem⟩ := @ih hnews (setup.store new) (storeState_nodup h)
    refine ⟨hlid, hnodup, fun e => ?_⟩
    have hstore : e ∈ (setup.store new).outputs ↔ e = new ∨ e ∈ setup.outputs ∧ e.outputIndex ≠ new.outputIndex :=
      mem_storeState h
    have hne : e = new → ∀ other ∈ news, e.outputIndex ≠ other.outputIndex :=
      fun he other hother heq => hnew (List.mem_map.mpr ⟨other, hother, heq.symm.trans (congrArg _ he)⟩)
    rw [List.foldl_cons, hmem, hstore, List.mem_cons, List.forall_mem_cons]
    tauto

theorem foldl_store_perm {news : List SetupState} (hnews : (news.map (·.outputIndex)).Nodup) {setup : Setup}
    (h : (setup.outputs.map (·.outputIndex)).Nodup)
    (hsub : ∀ e ∈ setup.outputs, ∃ new ∈ news, e.outputIndex = new.outputIndex) :
    (news.foldl Setup.store setup).outputs.Perm news := by
  have ⟨_, hnodup, hmem⟩ := foldl_store hnews h
  apply (List.perm_ext_iff_of_nodup hnodup.of_map hnews.of_map).mpr
  intro e
  rw [hmem]
  apply or_iff_left
  intro ⟨he, hne⟩
  have ⟨new, hnew, heq⟩ := hsub e he
  exact hne new hnew heq

-- A setup that refers to as many entries as it has states has no other states.
theorem refersTo_perm {setup : Setup} {indices : List Nat} (hindices : indices.Nodup) {lidClosed : Bool}
    (h : setup.refersTo indices lidClosed) :
    setup.lidClosed = lidClosed ∧ (setup.outputs.map (·.outputIndex)).Perm indices := by
  simp only [refersTo, Bool.and_eq_true, beq_iff_eq, List.all_eq_true, List.any_eq_true] at h
  have ⟨⟨hlid, hlen⟩, hall⟩ := h
  refine ⟨hlid, (List.Subperm.perm_of_length_le (List.subperm_of_subset hindices ?_) ?_).symm⟩
  case refine_1 =>
    intro index hi
    have ⟨state, hs, he⟩ := hall index hi
    exact List.mem_map.mpr ⟨state, hs, he⟩
  case refine_2 => exact Nat.le_of_eq (by rw [List.length_map, hlen])

end Setup

namespace OutputConfigurationStore

-- What registering outputs leaves as it is, and what it adds for the outputs in `done`.
structure Registered (store store' : OutputConfigurationStore) (outputs done : List BackendOutput) : Prop where
  nodup  : store'.identifications.Nodup
  added  : ∀ output ∈ done, output.isRelevant →
    ∃ i : Nat, store'.identifications[i]? = some output.identification ∧ (store'.uuidAt i).isSome
  kept   : ∀ output ∈ outputs, ∀ i : Nat, store.identifications[i]? = some output.identification →
    store'.identifications[i]? = some output.identification
  uuids  : ∀ i uuid, store.uuidAt i = some uuid → store'.uuidAt i = some uuid
  others : ∀ i : Nat, (∀ output ∈ done, output.isRelevant →
    store'.identifications[i]? ≠ some output.identification) → store'.outputs[i]? = store.outputs[i]?
  setups : store'.setups = store.setups

theorem Registers.registered {uuid : String} (h : Registers store store' outputs output uuid i)
    (hr : output.isRelevant) (hids : store.identifications.Nodup) : Registered store store' outputs [output] where
  nodup  := h.identifications_nodup hids
  added  := by
    intro o ho _
    have ho := List.mem_singleton.mp ho
    refine ⟨i, ?_, ?_⟩
    case refine_1 => rw [h.identifications, if_pos rfl, ho]
    case refine_2 =>
      rw [h.uuidAt, if_pos rfl]
      rfl
  kept   := fun _ ho _ hk => h.keeps ho hk
  uuids  := fun _ _ hk => h.uuid_kept hk
  others := by
    intro j hj
    apply h.others
    intro he
    exact hj output (List.mem_singleton_self _) hr (by rw [h.identifications, if_pos he])
  setups := h.setups

theorem registerOutput_registered (hnames : (outputs.map (·.name)).Nodup) (ho : output ∈ outputs)
    (hids : store.identifications.Nodup) (uuid : String) :
    Registered store (store.registerOutput outputs uuid output) outputs [output] := by
  cases hr : output.isRelevant
  case true =>
    have ⟨_, h⟩ := registerOutput_registers hnames ho hr store uuid
    exact h.registered hr hids
  case false =>
    rw [registerOutput, if_neg (by rw [hr]; exact Bool.false_ne_true)]
    exact {
      nodup  := hids
      added  := fun o ho hro => by
        rw [List.mem_singleton.mp ho, hr] at hro
        cases hro
      kept   := fun _ _ _ h => h
      uuids  := fun _ _ h => h
      others := fun _ _ => rfl
      setups := rfl }

theorem Registered.trans {store'' : OutputConfigurationStore} {done done' : List BackendOutput}
    (h : Registered store store' outputs done) (h' : Registered store' store'' outputs done')
    (hdone : ∀ output ∈ done, output ∈ outputs) : Registered store store'' outputs (done ++ done') where
  nodup  := h'.nodup
  added  := by
    intro o ho hr
    cases List.mem_append.mp ho
    case inl ho =>
      have ⟨i, hi, hu⟩ := h.added o ho hr
      have ⟨uuid, hu⟩ := Option.isSome_iff_exists.mp hu
      exact ⟨i, h'.kept o (hdone o ho) i hi, Option.isSome_iff_exists.mpr ⟨uuid, h'.uuids i uuid hu⟩⟩
    case inr ho => exact h'.added o ho hr
  kept   := fun o ho i hi => h'.kept o ho i (h.kept o ho i hi)
  uuids  := fun i uuid hi => h'.uuids i uuid (h.uuids i uuid hi)
  others := by
    intro i hi
    refine (h'.others i fun o ho => hi o (List.mem_append_right _ ho)).trans (h.others i fun o ho hr he => ?_)
    exact hi o (List.mem_append_left _ ho) hr (h'.kept o (hdone o ho) i he)
  setups := h'.setups.trans h.setups

theorem foldl_registered (hnames : (outputs.map (·.name)).Nodup) (list : List (BackendOutput × Nat))
    (hlist : ∀ e ∈ list, e.1 ∈ outputs) (hids : store.identifications.Nodup) :
    Registered store (list.foldl (fun store e => store.registerOutput outputs (createUuid e.2) e.1) store) outputs
      (list.map Prod.fst) := by
  induction list generalizing store
  case nil =>
    exact {
      nodup  := hids
      added  := fun _ ho => absurd ho List.not_mem_nil
      kept   := fun _ _ _ h => h
      uuids  := fun _ _ h => h
      others := fun _ _ => rfl
      setups := rfl }
  case cons e list ih =>
    have ⟨he, hlist⟩ := List.forall_mem_cons.mp hlist
    have h := registerOutput_registered hnames he hids (createUuid e.2)
    exact h.trans (ih hlist h.nodup) fun o ho => List.mem_singleton.mp ho ▸ he

theorem registerOutputs_registered (hnames : (outputs.map (·.name)).Nodup) (hids : store.identifications.Nodup) :
    Registered store (store.registerOutputs createUuid outputs) outputs outputs := by
  have h := @foldl_registered store outputs createUuid hnames outputs.zipIdx
    (fun e he => List.fst_mem_of_mem_zipIdx he) hids
  rwa [List.zipIdx_map_fst] at h

-- A new uuid is in use nowhere in the store, and not generated again.
theorem foldl_uuids_nodup (hnames : (outputs.map (·.name)).Nodup) (hinj : createUuid.Injective)
    (list : List (BackendOutput × Nat)) (hlist : ∀ e ∈ list, e.1 ∈ outputs) (hdistinct : (list.map Prod.snd).Nodup)
    (huuids : store.uuids.Nodup) (hfresh : ∀ e ∈ list, createUuid e.2 ∉ store.uuids) :
    (list.foldl (fun store e => store.registerOutput outputs (createUuid e.2) e.1) store).uuids.Nodup := by
  induction list generalizing store
  case nil => exact huuids
  case cons e list ih =>
    obtain ⟨he, hlist⟩ := List.forall_mem_cons.mp hlist
    obtain ⟨hfe, hfresh⟩ := List.forall_mem_cons.mp hfresh
    obtain ⟨hne, hdistinct⟩ := List.nodup_cons.mp hdistinct
    rw [List.foldl_cons]
    cases hr : e.1.isRelevant
    case false =>
      rw [registerOutput, if_neg (by rw [hr]; exact Bool.false_ne_true)]
      exact ih hlist hdistinct huuids hfresh
    case true =>
      obtain ⟨i, h⟩ := registerOutput_registers hnames he hr store (createUuid e.2)
      apply ih hlist hdistinct (h.uuids_nodup huuids hfe)
      intro e' he' hmem
      cases h.mem_uuids hmem
      case inl heq => exact hne (hinj heq ▸ List.mem_map_of_mem he')
      case inr hmem => exact hfresh e' he' hmem

theorem registerOutputs_uuids_nodup (hnames : (outputs.map (·.name)).Nodup) (hinj : createUuid.Injective)
    (huuids : store.uuids.Nodup) (hfresh : ∀ i, createUuid i ∉ store.uuids) :
    (store.registerOutputs createUuid outputs).uuids.Nodup := by
  apply foldl_uuids_nodup hnames hinj outputs.zipIdx (fun e he => List.fst_mem_of_mem_zipIdx he) ?_ huuids
    fun e _ => hfresh e.2
  rw [List.zipIdx_map_snd]
  exact List.nodup_range'

-- What storing the outputs in `done`, whose entries are found by `index`, in the setup at `k` changes.
structure Stored (store store' : OutputConfigurationStore) (index : BackendOutput → Nat) (k : Nat)
    (done : List BackendOutput) : Prop where
  identifications : store'.identifications = store.identifications
  uuidAt          : ∀ i, store'.uuidAt i = store.uuidAt i
  setups          : store'.setups =
    store.setups.modify k ((done.map fun output => output.setupState (index output)).foldl Setup.store ·)
  written         : ∀ output ∈ done,
    store'.outputs[index output]? = some (output.outputState (store.uuidAt (index output)))
  others          : ∀ i : Nat, (∀ output ∈ done, index output ≠ i) → store'.outputs[i]? = store.outputs[i]?

variable {index : BackendOutput → Nat}

theorem storeOutput_stored (hids : store.identifications.Nodup)
    (h : store.identifications[index output]? = some output.identification) (outputs : List BackendOutput) (k : Nat) :
    Stored store (store.storeOutput k outputs output) index k [output] := by
  rw [storeOutput, findOutputIndex_of_registered hids h outputs]
  rw [identifications, List.getElem?_map] at h
  obtain ⟨state, hs, hid⟩ := Option.map_eq_some_iff.mp h
  have huuid : store.uuidAt (index output) = state.uuid := by rw [uuidAt, hs, Option.bind_some]
  refine ⟨?_, fun i => ?_, rfl, fun o ho => ?_, fun i hi => List.getElem?_modify_ne _ _ (hi output (by simp))⟩
  case refine_1 =>
    apply List.ext_getElem?
    intro i
    simp only [identifications, List.getElem?_map, List.getElem?_modify]
    by_cases hi : index output = i
    · subst hi
      simp [hs, hid, BackendOutput.outputState]
    · simp [hi]
  case refine_2 =>
    simp only [uuidAt, List.getElem?_modify]
    by_cases hi : index output = i
    · subst hi
      simp [hs, BackendOutput.outputState]
    · simp [hi]
  case refine_3 =>
    rw [List.mem_singleton.mp ho, huuid, List.getElem?_modify_eq, hs]
    rfl

theorem Stored.trans {store'' : OutputConfigurationStore} {done done' : List BackendOutput}
    (h : Stored store store' index k done) (h' : Stored store' store'' index k done')
    (hne : ∀ output ∈ done, ∀ other ∈ done', index other ≠ index output) :
    Stored store store'' index k (done ++ done') where
  identifications := h'.identifications.trans h.identifications
  uuidAt          := fun i => (h'.uuidAt i).trans (h.uuidAt i)
  setups          := by
    rw [h'.setups, h.setups, List.modify_modify_eq, List.map_append]
    congr 1
    funext setup
    rw [List.foldl_append]
    rfl
  written         := by
    intro o ho
    cases List.mem_append.mp ho
    case inl ho => exact (h'.others _ (hne o ho)).trans (h.written o ho)
    case inr ho => exact h.uuidAt _ ▸ h'.written o ho
  others          := by
    intro i hi
    exact (h'.others i fun o ho => hi o (List.mem_append_right _ ho)).trans
      (h.others i fun o ho => hi o (List.mem_append_left _ ho))

theorem foldl_stored (hids : store.identifications.Nodup) (outputs : List BackendOutput) (k : Nat)
    (list : List BackendOutput) (hdistinct : (list.map index).Nodup)
    (h : ∀ output ∈ list, store.identifications[index output]? = some output.identification) :
    Stored store (list.foldl (·.storeOutput k outputs) store) index k list := by
  induction list generalizing store
  case nil =>
    refine ⟨rfl, fun _ => rfl, ?_, fun _ ho => absurd ho List.not_mem_nil, fun _ _ => rfl⟩
    exact (List.modify_id k store.setups).symm
  case cons output list ih =>
    have ⟨hnot, hdistinct⟩ := List.nodup_cons.mp hdistinct
    have ⟨ho, hlist⟩ := List.forall_mem_cons.mp h
    have hstep := storeOutput_stored hids ho outputs k
    have hrest := ih (hstep.identifications ▸ hids) hdistinct fun o ho => hstep.identifications ▸ hlist o ho
    apply hstep.trans hrest
    intro o ho other hother he
    exact hnot (List.mem_map.mpr ⟨other, hother, he.trans (congrArg index (List.mem_singleton.mp ho))⟩)

-- Where the entry of an output is found.
def entryOf (store : OutputConfigurationStore) (outputs : List BackendOutput) (output : BackendOutput) : Nat :=
  (store.findOutputIndex output outputs).getD 0

theorem identification_inj (hnames : (outputs.map (·.name)).Nodup) (ho : output ∈ outputs) (hother : other ∈ outputs)
    (h : output.identification = other.identification) : output = other :=
  List.inj_on_of_nodup_map hnames ho hother (congrArg OutputIdentification.connectorName h)

theorem mapM_eq_some_map {α β : Type} {f : α → Option β} {g : α → β} {l : List α} (h : ∀ a ∈ l, f a = some (g a)) :
    l.mapM f = some (l.map g) := by
  induction l
  case nil => rfl
  case cons a l ih =>
    have ⟨ha, hl⟩ := List.forall_mem_cons.mp h
    rw [List.mapM_cons, ha, ih hl]
    rfl

namespace Registered

theorem entryOf (h : Registered store store' outputs outputs) (ho : output ∈ outputs) (hr : output.isRelevant) :
    store'.identifications[store'.entryOf outputs output]? = some output.identification ∧
      (store'.uuidAt (store'.entryOf outputs output)).isSome ∧
      ∀ list, store'.findOutputIndex output list = some (store'.entryOf outputs output) := by
  have ⟨i, hi, hu⟩ := h.added output ho hr
  have hentry : store'.entryOf outputs output = i := by
    rw [OutputConfigurationStore.entryOf, findOutputIndex_of_registered h.nodup hi]
    rfl
  rw [hentry]
  exact ⟨hi, hu, findOutputIndex_of_registered h.nodup hi⟩

theorem entryOf_inj (h : Registered store store' outputs outputs) (hnames : (outputs.map (·.name)).Nodup)
    (ho : output ∈ outputs) (hr : output.isRelevant) (hother : other ∈ outputs) (hro : other.isRelevant)
    (he : store'.entryOf outputs output = store'.entryOf outputs other) : output = other :=
  identification_inj hnames ho hother
    (Option.some.inj ((h.entryOf ho hr).1.symm.trans (he ▸ (h.entryOf hother hro).1)))

theorem entryOf_nodup (h : Registered store store' outputs outputs) (hnames : (outputs.map (·.name)).Nodup) :
    ((outputs.filter (·.isRelevant)).map (store'.entryOf outputs)).Nodup := by
  apply List.Nodup.map_on
  case H =>
    intro o ho p hp he
    have ⟨ho, hro⟩ := List.mem_filter.mp ho
    have ⟨hp, hrp⟩ := List.mem_filter.mp hp
    exact h.entryOf_inj hnames ho hro hp hrp he
  case d => exact hnames.of_map.filter _

-- The setup that is found for the outputs has the states of their entries and no others.
theorem findSetup (h : Registered store store' outputs outputs) (hnames : (outputs.map (·.name)).Nodup)
    {lidClosed : Bool} (hf : store'.findSetup (outputs.filter (·.isRelevant)) lidClosed = some k) :
    ∃ setup, store'.setups[k]? = some setup ∧ setup.lidClosed = lidClosed ∧
      (setup.outputs.map (·.outputIndex)).Perm ((outputs.filter (·.isRelevant)).map (store'.entryOf outputs)) := by
  rw [OutputConfigurationStore.findSetup] at hf
  have hstates : (outputs.filter (·.isRelevant)).mapM (store'.findOutputIndex · (outputs.filter (·.isRelevant))) =
      some ((outputs.filter (·.isRelevant)).map (store'.entryOf outputs)) := by
    apply mapM_eq_some_map
    intro o ho
    have ⟨ho, hr⟩ := List.mem_filter.mp ho
    exact (h.entryOf ho hr).2.2 _
  rw [hstates] at hf
  have ⟨hlt, hrefers, _⟩ := List.findIdx?_eq_some_iff_getElem.mp hf
  exact ⟨_, List.getElem?_eq_getElem hlt, Setup.refersTo_perm (h.entryOf_nodup hnames) hrefers⟩

end Registered
-- Storing the outputs starts from a setup that has no states of entries other than theirs.
theorem storeConfig_starts (hnames : (outputs.map (·.name)).Nodup) (hids : store.identifications.Nodup)
    (hr : outputs.filter (·.isRelevant) ≠ []) (createUuid : Nat → String) (lidClosed : Bool) :
    let registered := store.registerOutputs createUuid outputs
    let relevantOutputs := outputs.filter (·.isRelevant)
    ∃ k start setup, store.storeConfig createUuid outputs lidClosed =
        relevantOutputs.foldl (·.storeOutput k outputs) start ∧
      start.outputs = registered.outputs ∧ start.setups[k]? = some setup ∧ setup.lidClosed = lidClosed ∧
      (setup.outputs.map (·.outputIndex)).Nodup ∧
      ∀ e ∈ setup.outputs, ∃ output ∈ relevantOutputs, e.outputIndex = registered.entryOf outputs output := by
  intro registered relevantOutputs
  have h : Registered store registered outputs outputs := registerOutputs_registered hnames hids
  have hstore : store.storeConfig createUuid outputs lidClosed = _ :=
    if_neg fun hemp => hr (List.isEmpty_iff.mp hemp)
  rw [hstore]
  cases hf : registered.findSetup relevantOutputs lidClosed
  case some k =>
    obtain ⟨setup, hk, hlid, hperm⟩ := h.findSetup hnames hf
    refine ⟨k, registered, setup, rfl, rfl, hk, hlid, hperm.symm.nodup (h.entryOf_nodup hnames), fun e he => ?_⟩
    obtain ⟨output, ho, heq⟩ := List.mem_map.mp (hperm.subset (List.mem_map_of_mem he))
    exact ⟨output, ho, heq.symm⟩
  case none =>
    exact ⟨_, _, { lidClosed }, rfl, rfl, List.getElem?_concat_length, rfl, List.nodup_nil,
      fun _ he => absurd he List.not_mem_nil⟩

-- The entries of the outputs, with the uuids that they have got.
structure Identified (store : OutputConfigurationStore) (outputs : List BackendOutput) : Prop where
  identifications : store.identifications.Nodup
  uuids           : store.uuids.Nodup
  found           : ∀ output ∈ outputs, output.isRelevant →
    ∃ i < store.outputs.length, store.findOutputIndex output outputs = some i ∧ (store.uuidAt i).isSome
  distinct        : ∀ output ∈ outputs, ∀ other ∈ outputs, output.isRelevant → other.isRelevant →
    store.findOutputIndex output outputs = store.findOutputIndex other outputs → output = other

-- The settings of the outputs are in their entries, and one setup has one state for each of them.
structure Written (store store' : OutputConfigurationStore) (outputs : List BackendOutput) (lidClosed : Bool) :
    Prop where
  identifications : store'.identifications.Nodup
  settings        : ∀ output ∈ outputs, output.isRelevant → ∀ i, store.findOutputIndex output outputs = some i →
    store'.outputs[i]? = some (output.outputState (store.uuidAt i))
  others          : ∀ i : Nat, (∀ output ∈ outputs, output.isRelevant →
    store.findOutputIndex output outputs ≠ some i) → store'.outputs[i]? = store.outputs[i]?
  setup           : (∃ output ∈ outputs, output.isRelevant) → ∃ setup ∈ store'.setups, setup.lidClosed = lidClosed ∧
    setup.outputs.Perm ((outputs.filter (·.isRelevant)).filterMap fun output =>
      (store.findOutputIndex output outputs).map output.setupState)

namespace Registered

variable {initial : OutputConfigurationStore}

theorem identified (h : Registered initial store outputs outputs) (hnames : (outputs.map (·.name)).Nodup)
    (huuids : store.uuids.Nodup) : Identified store outputs where
  identifications := h.nodup
  uuids           := huuids
  found           := by
    intro output ho hr
    have ⟨hid, hu, hf⟩ := h.entryOf ho hr
    have ⟨hlt, _⟩ := List.getElem?_eq_some_iff.mp hid
    exact ⟨_, by simpa [OutputConfigurationStore.identifications] using hlt, hf outputs, hu⟩
  distinct        := by
    intro output ho other hother hr hro he
    rw [(h.entryOf ho hr).2.2, (h.entryOf hother hro).2.2] at he
    exact h.entryOf_inj hnames ho hr hother hro (Option.some.inj he)

-- Outputs that are registered keep their entries when they are registered once more.
theorem again (h : Registered initial store outputs outputs) (hnames : (outputs.map (·.name)).Nodup)
    (createUuid : Nat → String) (ho : output ∈ outputs) (hr : output.isRelevant) :
    let again := store.registerOutputs createUuid outputs
    again.identifications[store.entryOf outputs output]? = some output.identification ∧
      again.entryOf outputs output = store.entryOf outputs output ∧
      again.uuidAt (store.entryOf outputs output) = store.uuidAt (store.entryOf outputs output) := by
  intro again
  have hagain : Registered store again outputs outputs := registerOutputs_registered hnames h.nodup
  have ⟨hid, hu, _⟩ := h.entryOf ho hr
  have ⟨uuid, hu⟩ := Option.isSome_iff_exists.mp hu
  have hid' := hagain.kept output ho _ hid
  refine ⟨hid', ?_, (hagain.uuids _ uuid hu).trans hu.symm⟩
  rw [OutputConfigurationStore.entryOf, findOutputIndex_of_registered hagain.nodup hid']
  rfl

theorem written (h : Registered initial store outputs outputs) (hnames : (outputs.map (·.name)).Nodup)
    (createUuid : Nat → String) (lidClosed : Bool) :
    Written store (store.storeConfig createUuid outputs lidClosed) outputs lidClosed := by
  by_cases hnone : outputs.filter (·.isRelevant) = []
  · have hstore : store.storeConfig createUuid outputs lidClosed = store := if_pos (List.isEmpty_iff.mpr hnone)
    have irrelevant (output : BackendOutput) (ho : output ∈ outputs) : ¬output.isRelevant :=
      List.filter_eq_nil_iff.mp hnone output ho
    rw [hstore]
    exact {
      identifications := h.nodup
      settings        := fun output ho hr => absurd hr (irrelevant output ho)
      others          := fun _ _ => rfl
      setup           := by
        rintro ⟨output, ho, hr⟩
        exact absurd hr (irrelevant output ho) }
  · obtain ⟨k, start, setup, hstore, houtputs, hk, hlid, hnodup, hsub⟩ :=
      storeConfig_starts hnames h.nodup hnone createUuid lidClosed
    have hagain : Registered store (store.registerOutputs createUuid outputs) outputs outputs :=
      registerOutputs_registered hnames h.nodup
    have hids : start.identifications = (store.registerOutputs createUuid outputs).identifications := by
      rw [OutputConfigurationStore.identifications, houtputs]
      rfl
    have huuid (i : Nat) : start.uuidAt i = (store.registerOutputs createUuid outputs).uuidAt i := by
      rw [OutputConfigurationStore.uuidAt, houtputs]
      rfl
    have hstored := foldl_stored (hids ▸ hagain.nodup) outputs k (outputs.filter (·.isRelevant))
      (h.entryOf_nodup hnames) fun output ho => by
        obtain ⟨ho, hr⟩ := List.mem_filter.mp ho
        exact hids ▸ (h.again hnames createUuid ho hr).1
    rw [hstore]
    exact {
      identifications := hstored.identifications ▸ hids ▸ hagain.nodup
      settings        := by
        intro output ho hr i hi
        have hi := Option.some.inj (((h.entryOf ho hr).2.2 outputs).symm.trans hi)
        rw [← hi, hstored.written output (List.mem_filter.mpr ⟨ho, hr⟩), huuid, (h.again hnames createUuid ho hr).2.2]
      others          := by
        intro i hi
        rw [hstored.others, houtputs, hagain.others]
        case a =>
          intro output ho hr hid
          have he := findOutputIndex_of_registered hagain.nodup hid outputs
          rw [(hagain.entryOf ho hr).2.2, (h.again hnames createUuid ho hr).2.1] at he
          exact hi output ho hr (((h.entryOf ho hr).2.2 outputs).trans he)
        case a =>
          intro output ho he
          obtain ⟨ho, hr⟩ := List.mem_filter.mp ho
          exact hi output ho hr (he ▸ (h.entryOf ho hr).2.2 outputs)
      setup           := by
        intro _
        have hnews : (((outputs.filter (·.isRelevant)).map fun output =>
            output.setupState (store.entryOf outputs output)).map (·.outputIndex)).Nodup := by
          rw [List.map_map]
          exact h.entryOf_nodup hnames
        have hat := (congrArg (·[k]?) hstored.setups).trans
          ((List.getElem?_modify_eq _ _ _).trans (congrArg (Functor.map _) hk))
        refine ⟨_, List.mem_of_getElem? hat, (Setup.foldl_store hnews hnodup).1.trans hlid, ?_⟩
        · have hstates : ((outputs.filter (·.isRelevant)).filterMap fun output =>
              (store.findOutputIndex output outputs).map output.setupState) =
              (outputs.filter (·.isRelevant)).map fun output => output.setupState (store.entryOf outputs output) := by
            rw [← List.filterMap_eq_map]
            apply List.filterMap_congr
            intro output ho
            obtain ⟨ho, hr⟩ := List.mem_filter.mp ho
            rw [(h.entryOf ho hr).2.2]
            rfl
          rw [hstates]
          apply Setup.foldl_store_perm hnews hnodup
          intro e he
          obtain ⟨output, ho, heq⟩ := hsub e he
          refine ⟨_, List.mem_map_of_mem ho, ?_⟩
          obtain ⟨ho, hr⟩ := List.mem_filter.mp ho
          rw [heq, (h.again hnames createUuid ho hr).2.1]
          rfl }

end Registered

-- Outputs that are not for the desktop have no entries. A store that is loaded has distinct uuids.
theorem registerOutputs_storeConfig (store : OutputConfigurationStore) (hids : store.identifications.Nodup)
    (huuids : store.uuids.Nodup) (outputs : List BackendOutput) (hnames : (outputs.map (·.name)).Nodup)
    (createUuid : Nat → String) (hinj : createUuid.Injective) (hfresh : ∀ i, createUuid i ∉ store.uuids)
    (createUuid' : Nat → String) (lidClosed : Bool) :
    let registered := store.registerOutputs createUuid outputs
    Identified registered outputs ∧
      (∀ i uuid, store.uuidAt i = some uuid → registered.uuidAt i = some uuid) ∧
      Written registered (registered.storeConfig createUuid' outputs lidClosed) outputs lidClosed := by
  have h : Registered store (store.registerOutputs createUuid outputs) outputs outputs :=
    registerOutputs_registered hnames hids
  exact ⟨h.identified hnames (registerOutputs_uuids_nodup hnames hinj huuids hfresh), h.uuids,
    h.written hnames createUuid' lidClosed⟩

theorem registerOutputs_storeConfig_plugged :
    let panel : BackendOutput := { (default : BackendOutput) with name := "eDP-1", edidHash := "1f", isEnabled := true }
    let monitor : BackendOutput := { (default : BackendOutput) with name := "DP-1", edidIdentifier := "DEL 1 2 2020 0" }
    let store : OutputConfigurationStore :=
      { outputs := [{ edidHash := "1f", connectorName := "eDP-1", uuid := some "panel" }] }
    let createUuid := fun i => String.ofList (List.replicate (i + 6) 'a')
    let registered := store.registerOutputs createUuid [panel, monitor]
    Identified registered [panel, monitor] ∧
      (∀ i uuid, store.uuidAt i = some uuid → registered.uuidAt i = some uuid) ∧
      Written registered (registered.storeConfig createUuid [panel, monitor] false) [panel, monitor] false :=
  registerOutputs_storeConfig _ (by decide) (by decide) _ (by decide) _
    (fun i j h => by simpa using congrArg String.length h)
    (fun i h =>
      have hlen : i + 6 = "panel".length := by simpa using congrArg String.length (List.mem_singleton.mp h)
      have hlt : "panel".length < i + 6 := Nat.lt_of_lt_of_le (by decide) (Nat.le_add_left 6 i)
      Nat.ne_of_gt hlt hlen) _ _

-- The entries of a store that was not loaded can share a uuid, and they keep it.
theorem registerOutputs_nonDesktop :
    let headset : BackendOutput :=
      { (default : BackendOutput) with name := "DP-1", edidHash := "2e", isNonDesktop := true }
    let store : OutputConfigurationStore :=
      { outputs := [{ edidHash := "1f", uuid := some "panel" }, { edidHash := "1e", uuid := some "panel" }] }
    let registered := store.registerOutputs (fun _ => "headset") [headset]
    store.identifications.Nodup ∧ registered.findOutputIndex headset [headset] = none ∧ ¬registered.uuids.Nodup := by
  decide

end OutputConfigurationStore
end KWin
