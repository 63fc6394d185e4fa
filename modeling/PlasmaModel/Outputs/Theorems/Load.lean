import Mathlib.Data.List.Induction
import Mathlib.Data.List.ReduceOption
import PlasmaModel.Outputs.Theorems.Fields
import PlasmaModel.Outputs.Theorems.Identify

namespace KWin

variable {outputs : List QJsonValue} {outputDatas : List (Option OutputState)} {state : OutputState} {m n : Nat}

namespace OutputConfigurationStore

-- The first entry of the file that has its identifiers.
structure FirstOfItsKind (outputs : List QJsonValue) (n : Nat) (entry : QJsonValue) : Prop where
  found      : outputs[n]? = some entry
  identified : loadIdentification entry.toObject ≠ {}
  first      : ∀ m < n, ∀ other, outputs[m]? = some other →
    loadIdentification other.toObject ≠ loadIdentification entry.toObject

-- The entries that are loaded are the first of their kinds, at the places they have in the file.
structure Loaded (outputs : List QJsonValue) (outputDatas : List (Option OutputState)) : Prop where
  length : outputDatas.length = outputs.length
  loaded : ∀ (n : Nat) state, outputDatas[n]? = some (some state) ↔
    ∃ entry, FirstOfItsKind outputs n entry ∧ state = loadOutputState entry.toObject

theorem FirstOfItsKind.concat {entry last : QJsonValue} (hn : n < outputs.length) :
    FirstOfItsKind (outputs ++ [last]) n entry ↔ FirstOfItsKind outputs n entry := by
  apply Iff.intro
  case mp =>
    intro h
    refine ⟨List.getElem?_append_left hn ▸ h.found, h.identified, fun m hm other hother => ?_⟩
    exact h.first m hm other (List.getElem?_append_left (Nat.lt_trans hm hn) ▸ hother)
  case mpr =>
    intro h
    refine ⟨(List.getElem?_append_left hn).trans h.found, h.identified, fun m hm other hother => ?_⟩
    exact h.first m hm other ((List.getElem?_append_left (Nat.lt_trans hm hn)) ▸ hother)

-- Entries with the identifiers of an earlier one find the first of these.
theorem exists_first {entry : QJsonValue} (hentry : outputs[n]? = some entry)
    (hid : loadIdentification entry.toObject ≠ {}) :
    ∃ m ≤ n, ∃ other, FirstOfItsKind outputs m other ∧
      loadIdentification other.toObject = loadIdentification entry.toObject := by
  induction n using Nat.strongRecOn generalizing entry
  case ind n ih =>
    by_cases hfirst : ∀ m < n, ∀ other, outputs[m]? = some other →
        loadIdentification other.toObject ≠ loadIdentification entry.toObject
    · exact ⟨n, Nat.le_refl n, entry, ⟨hentry, hid, hfirst⟩, rfl⟩
    · push Not at hfirst
      have ⟨m, hm, other, hother, heq⟩ := hfirst
      have ⟨k, hk, first, hfirst, heq'⟩ := ih m hm hother (heq ▸ hid)
      exact ⟨k, Nat.le_trans hk (Nat.le_of_lt hm), first, hfirst, heq'.trans heq⟩

theorem Loaded.any_iff (h : Loaded outputs outputDatas) (id : OutputIdentification) :
    (outputDatas.any fun data => data.any (·.toOutputIdentification = id)) ↔
      ∃ m entry, FirstOfItsKind outputs m entry ∧ loadIdentification entry.toObject = id := by
  simp only [List.any_eq_true, Option.any_eq_true, decide_eq_true_eq]
  apply Iff.intro
  case mp =>
    intro ⟨_, hmem, state, hs, hid⟩
    have ⟨m, hm⟩ := List.mem_iff_getElem?.mp hmem
    have ⟨entry, hfirst, heq⟩ := (h.loaded m state).mp (hs ▸ hm)
    exact ⟨m, entry, hfirst, hid ▸ heq ▸ rfl⟩
  case mpr =>
    intro ⟨m, entry, hfirst, hid⟩
    have hm := (h.loaded m _).mpr ⟨entry, hfirst, rfl⟩
    exact ⟨_, List.mem_of_getElem? hm, _, rfl, hid⟩

theorem Loaded.loadOutput (h : Loaded outputs outputDatas) (last : QJsonValue) :
    loadOutput outputDatas last = some state ↔
      FirstOfItsKind (outputs ++ [last]) outputs.length last ∧ state = loadOutputState last.toObject := by
  have hlast : (outputs ++ [last])[outputs.length]? = some last := List.getElem?_concat_length
  have hid : (loadOutputState last.toObject).toOutputIdentification = loadIdentification last.toObject := rfl
  simp only [OutputConfigurationStore.loadOutput, hid]
  split
  case isTrue hnone => exact iff_of_false nofun fun hfirst => hfirst.1.identified hnone
  case isFalse hsome =>
    split
    case isTrue hany =>
      have ⟨m, entry, hfirst, heq⟩ := (h.any_iff _).mp hany
      have ⟨hlt, _⟩ := List.getElem?_eq_some_iff.mp hfirst.found
      refine iff_of_false nofun fun hlast => ?_
      exact hlast.1.first m hlt entry ((List.getElem?_append_left hlt).trans hfirst.found) heq
    case isFalse hany =>
      have hfirst : FirstOfItsKind (outputs ++ [last]) outputs.length last := by
        refine ⟨hlast, hsome, fun m hm other hother heq => hany ((h.any_iff _).mpr ?_)⟩
        have hother := (List.getElem?_append_left hm).symm.trans hother
        have ⟨k, _, entry, hfirst, heq'⟩ := exists_first hother (heq ▸ hsome)
        exact ⟨k, entry, hfirst, heq'.trans heq⟩
      apply Iff.intro
      case mp => exact fun hs => ⟨hfirst, (Option.some.inj hs).symm⟩
      case mpr => exact fun hs => congrArg some hs.2.symm

theorem Loaded.concat (h : Loaded outputs outputDatas) (last : QJsonValue) :
    Loaded (outputs ++ [last]) (outputDatas ++ [OutputConfigurationStore.loadOutput outputDatas last]) where
  length := by rw [List.length_append, List.length_append, h.length]; rfl
  loaded := by
    intro n state
    cases Nat.lt_trichotomy n outputs.length
    case inl hlt =>
      rw [List.getElem?_append_left (h.length ▸ hlt), h.loaded]
      simp only [FirstOfItsKind.concat hlt]
    case inr hge =>
      cases hge
      case inl heq =>
        subst heq
        rw [← h.length, List.getElem?_concat_length, h.length, Option.some_inj, h.loadOutput]
        apply Iff.intro
        case mp => exact fun ⟨hfirst, hs⟩ => ⟨last, hfirst, hs⟩
        case mpr =>
          intro ⟨entry, hfirst, hs⟩
          have hentry : entry = last := by simpa using hfirst.found.symm
          subst hentry
          exact ⟨hfirst, hs⟩
      case inr hgt =>
        have hlen : outputs.length + 1 ≤ n := hgt
        rw [List.getElem?_eq_none (by rw [List.length_append, h.length]; exact hlen)]
        apply iff_of_false nofun
        intro ⟨entry, hfirst, _⟩
        have ⟨hlt, _⟩ := List.getElem?_eq_some_iff.mp hfirst.found
        exact absurd hlt (Nat.not_lt.mpr (by rw [List.length_append]; exact hlen))

theorem loadOutputs_loaded (outputs : List QJsonValue) : Loaded outputs (loadOutputs outputs) := by
  induction outputs using List.reverseRecOn
  case nil =>
    refine ⟨rfl, fun n state => iff_of_false nofun fun ⟨entry, hfirst, _⟩ => ?_⟩
    exact nomatch hfirst.found
  case append_singleton outputs last ih =>
    have hstep : loadOutputs (outputs ++ [last]) =
        loadOutputs outputs ++ [loadOutput (loadOutputs outputs) last] := List.foldl_concat ..
    exact hstep ▸ ih.concat last

theorem Loaded.distinct (h : Loaded outputs outputDatas) {other : OutputState}
    (hm : outputDatas[m]? = some (some state)) (hn : outputDatas[n]? = some (some other))
    (heq : state.toOutputIdentification = other.toOutputIdentification) : m = n := by
  have ⟨entry, hentry, hs⟩ := (h.loaded m state).mp hm
  have ⟨entry', hentry', ho⟩ := (h.loaded n other).mp hn
  have heq : loadIdentification entry.toObject = loadIdentification entry'.toObject := by
    rw [hs, ho] at heq
    exact heq
  cases Nat.lt_trichotomy m n
  case inl hlt => exact absurd heq (hentry'.first m hlt entry hentry.found)
  case inr hge =>
    cases hge
    case inl he => exact he
    case inr hgt => exact absurd heq.symm (hentry.first n hgt entry' hentry'.found)

end OutputConfigurationStore

namespace SetupState

variable {setupState : SetupState} {states : List SetupState}

structure Valid (outputDatas : List (Option OutputState)) (setupState : SetupState) : Prop where
  shared   : ∃ shared, outputDatas[setupState.outputIndex]? = some (some shared) ∧
    (setupState.replicationSource = "" ∨ shared.uuid ≠ some setupState.replicationSource)
  index    : (setupState.outputIndex : Int) < 2 ^ 31
  x        : -1000000 ≤ setupState.position.x ∧ setupState.position.x ≤ 1000000
  y        : -1000000 ≤ setupState.position.y ∧ setupState.position.y ≤ 1000000
  priority : -2 ^ 31 ≤ setupState.priority ∧ setupState.priority < 2 ^ 31
  enabled  : setupState.enabled → 0 ≤ setupState.priority

-- The entry of the file that the state was read for.
def Denotes (output : QJsonValue) (setupState : SetupState) : Prop :=
  (output.toObject.lookup "outputIndex").map (·.toInt (-1)) = some (setupState.outputIndex : Int)

theorem loadPosition_bounds {data : QJsonObject} {position : QPoint} (h : loadPosition data = some position) :
    (-1000000 ≤ position.x ∧ position.x ≤ 1000000) ∧ -1000000 ≤ position.y ∧ position.y ≤ 1000000 := by
  simp only [loadPosition, Option.bind_eq_bind, Option.bind_eq_some_iff] at h
  have ⟨_, _, x, _, y, _, h⟩ := h
  split at h
  case isTrue =>
    split at h
    case isTrue => cases h
    case isFalse hin =>
      cases h
      dsimp only at hin ⊢
      omega
  case isFalse => cases h

theorem loadPriority_bounds {data : QJsonObject} {enabled : Bool} {priority : Int}
    (h : loadPriority data enabled = some priority) :
    (-2 ^ 31 ≤ priority ∧ priority < 2 ^ 31) ∧ (enabled → 0 ≤ priority) := by
  rw [loadPriority] at h
  split at h
  case h_1 value _ =>
    split at h
    case isTrue => cases h
    case isFalse hin =>
      cases h
      refine ⟨QJsonValue.toInt_bounds (by decide) (by decide) value, fun he => ?_⟩
      exact Int.not_lt.mp fun hlt => hin ⟨hlt, he⟩
  case h_2 =>
    cases h
    exact ⟨by decide, fun _ => by decide⟩

theorem loadReplicationSource_ne (data : QJsonObject) (shared : OutputState) :
    loadReplicationSource data shared = "" ∨ shared.uuid ≠ some (loadReplicationSource data shared) := by
  rw [loadReplicationSource]
  split
  case h_1 =>
    split
    case isTrue hne => exact .inr hne
    case isFalse => exact .inl rfl
  case h_2 => exact .inl rfl

theorem load_valid {output : QJsonValue} (h : load outputDatas states output = some setupState) :
    setupState.Valid outputDatas ∧ (∀ other ∈ states, other.outputIndex ≠ setupState.outputIndex) ∧
      Denotes output setupState := by
  simp only [load, Option.bind_eq_bind, Option.bind_eq_some_iff] at h
  obtain ⟨enabled, _, value, hvalue, h⟩ := h
  split at h
  case isTrue => cases h
  case isFalse hneg =>
    obtain ⟨shared, hshared, h⟩ := Option.bind_eq_some_iff.mp h
    split at h
    case isTrue => cases h
    case isFalse hnew =>
      obtain ⟨position, hposition, h⟩ := Option.bind_eq_some_iff.mp h
      obtain ⟨priority, hpriority, h⟩ := Option.bind_eq_some_iff.mp h
      cases h
      obtain ⟨hx, hy⟩ := loadPosition_bounds hposition
      obtain ⟨hp, he⟩ := loadPriority_bounds hpriority
      have hindex : ((value.toInt (-1)).toNat : Int) = value.toInt (-1) := Int.toNat_of_nonneg (by omega)
      obtain ⟨_, hhigh⟩ := @QJsonValue.toInt_bounds (-1) (by decide) (by decide) value
      refine ⟨⟨⟨shared, Option.join_eq_some_iff.mp hshared, loadReplicationSource_ne _ _⟩, ?_, hx, hy, hp, he⟩, ?_, ?_⟩
      case refine_1 => exact Int.lt_of_le_of_lt (Int.le_of_eq hindex) hhigh
      case refine_2 => simpa using hnew
      case refine_3 => rw [Denotes, hvalue, Option.map_some, hindex]

theorem load_save (h : setupState.Valid outputDatas)
    (hnew : ∀ other ∈ states, other.outputIndex ≠ setupState.outputIndex) :
    load outputDatas states setupState.save = some setupState := by
  have ⟨shared, hshared, hsource⟩ := h.shared
  have hjoin : (outputDatas[setupState.outputIndex]?).join = some shared := Option.join_eq_some_iff.mpr hshared
  have hany : ¬states.any (·.outputIndex == setupState.outputIndex) := by simpa using hnew
  have henabled : (OutputField.bool "enabled").load setupState.save.toObject = some setupState.enabled := rfl
  have hindex : setupState.save.toObject.lookup "outputIndex" = some (.double setupState.outputIndex) := rfl
  have hposition : loadPosition setupState.save.toObject = some setupState.position := by
    have hx : (QJsonValue.double setupState.position.x).toInt 0 = setupState.position.x :=
      QJsonValue.toInt_intCast (by have := h.x; omega) (by have := h.x; omega) 0
    have hy : (QJsonValue.double setupState.position.y).toInt 0 = setupState.position.y :=
      QJsonValue.toInt_intCast (by have := h.y; omega) (by have := h.y; omega) 0
    have hin : ¬(1000000 < setupState.position.x ∨ setupState.position.x < -1000000 ∨
        1000000 < setupState.position.y ∨ setupState.position.y < -1000000) := by
      have hx := h.x
      have hy := h.y
      omega
    let position := [("x", QJsonValue.double setupState.position.x), ("y", QJsonValue.double setupState.position.y)]
    have hobj : setupState.save.toObject.lookup "position" = some (.object position) := rfl
    have hlx : (QJsonValue.object position).toObject.lookup "x" = some (.double setupState.position.x) := rfl
    have hly : (QJsonValue.object position).toObject.lookup "y" = some (.double setupState.position.y) := rfl
    simp only [loadPosition, Option.bind_eq_bind, hobj, hlx, hly, Option.bind_some, QJsonValue.isDouble, and_self,
      if_true, hx, hy, if_neg hin]
  have hpriority : loadPriority setupState.save.toObject setupState.enabled = some setupState.priority := by
    have hp : (QJsonValue.double setupState.priority).toInt (-1) = setupState.priority :=
      QJsonValue.toInt_intCast h.priority.1 h.priority.2 (-1)
    have hload : loadPriority setupState.save.toObject setupState.enabled =
        if (QJsonValue.double setupState.priority).toInt (-1) < 0 ∧ setupState.enabled then none
        else some ((QJsonValue.double setupState.priority).toInt (-1)) := rfl
    rw [hload, hp, if_neg fun hneg => absurd (h.enabled hneg.2) (Int.not_le.mpr hneg.1)]
  have hreplication : loadReplicationSource setupState.save.toObject shared = setupState.replicationSource := by
    have hload : loadReplicationSource setupState.save.toObject shared =
        if shared.uuid ≠ some setupState.replicationSource then setupState.replicationSource else "" := rfl
    rw [hload]
    split
    case isTrue => rfl
    case isFalse heq => exact (hsource.resolve_right heq).symm
  have hint : (QJsonValue.double setupState.outputIndex).toInt (-1) = setupState.outputIndex :=
    QJsonValue.toInt_intCast (by omega) h.index (-1)
  simp only [load, Option.bind_eq_bind, Option.bind_eq_some_iff]
  refine ⟨_, henabled, _, hindex, ?_⟩
  rw [hint, if_neg (by omega), Option.bind_eq_some_iff, Int.toNat_natCast]
  refine ⟨shared, hjoin, ?_⟩
  rw [if_neg hany]
  simp only [Option.bind_eq_some_iff]
  refine ⟨_, hposition, _, hpriority, ?_⟩
  rw [hreplication]

end SetupState
namespace Setup

variable {setup : Setup} {states loaded : List SetupState}

structure Valid (outputDatas : List (Option OutputState)) (setup : Setup) : Prop where
  states  : ∀ setupState ∈ setup.outputs, setupState.Valid outputDatas
  nodup   : (setup.outputs.map (·.outputIndex)).Nodup
  enabled : ∃ setupState ∈ setup.outputs, setupState.enabled

theorem nodup_concat {setupState : SetupState} (h : (states.map (·.outputIndex)).Nodup)
    (hnew : ∀ other ∈ states, other.outputIndex ≠ setupState.outputIndex) :
    ((states ++ [setupState]).map (·.outputIndex)).Nodup := by
  rw [List.map_append]
  apply h.append (List.nodup_singleton _)
  intro index hi hmem
  have ⟨other, ho, he⟩ := List.mem_map.mp hi
  exact hnew other ho (he.trans (List.mem_singleton.mp hmem))

-- The states before are those of the outputs that have been read.
theorem foldlM_load {outputs : List QJsonValue} (hstates : (states.map (·.outputIndex)).Nodup)
    (h : outputs.foldlM (fun states output => do
      return states ++ [← SetupState.load outputDatas states output]) states = some loaded) :
    (loaded.map (·.outputIndex)).Nodup ∧ ∃ new, loaded = states ++ new ∧
      (∀ setupState ∈ new, setupState.Valid outputDatas) ∧ List.Forall₂ SetupState.Denotes outputs new := by
  induction outputs generalizing states
  case nil =>
    cases h
    exact ⟨hstates, [], (List.append_nil _).symm, fun _ he => absurd he List.not_mem_nil, .nil⟩
  case cons output outputs ih =>
    rw [List.foldlM_cons] at h
    have ⟨_, hstep, h⟩ := Option.bind_eq_some_iff.mp h
    have ⟨setupState, hload, he⟩ := Option.bind_eq_some_iff.mp hstep
    cases he
    have ⟨hvalid, hnew, hdenotes⟩ := SetupState.load_valid hload
    have ⟨hnodup, new, heq, hvalids, hdenote⟩ := ih (nodup_concat hstates hnew) h
    refine ⟨hnodup, setupState :: new, ?_, List.forall_mem_cons.mpr ⟨hvalid, hvalids⟩, .cons hdenotes hdenote⟩
    rw [heq, List.append_assoc]
    rfl

theorem foldlM_save (hvalid : ∀ setupState ∈ loaded, setupState.Valid outputDatas)
    (hnodup : ((states ++ loaded).map (·.outputIndex)).Nodup) :
    (loaded.map (·.save)).foldlM (fun states output => do
      return states ++ [← SetupState.load outputDatas states output]) states = some (states ++ loaded) := by
  induction loaded generalizing states
  case nil => exact congrArg some (List.append_nil _).symm
  case cons setupState loaded ih =>
    have ⟨hv, hvalid⟩ := List.forall_mem_cons.mp hvalid
    have hnew : ∀ other ∈ states, other.outputIndex ≠ setupState.outputIndex := by
      intro other ho he
      rw [List.map_append, List.nodup_append] at hnodup
      exact hnodup.2.2 _ (List.mem_map_of_mem ho) _ (List.mem_map_of_mem List.mem_cons_self) he
    have hrest := @ih (states ++ [setupState]) hvalid (by rwa [List.append_assoc])
    rw [List.map_cons, List.foldlM_cons, SetupState.load_save hv hnew]
    exact hrest.trans (by rw [List.append_assoc]; rfl)

theorem load_valid {value : QJsonValue} (h : load outputDatas value = some setup) :
    setup.Valid outputDatas ∧
      List.Forall₂ SetupState.Denotes (value.toObject.value "outputs").toArray setup.outputs := by
  simp only [load, Option.bind_eq_bind, Option.bind_eq_some_iff] at h
  have ⟨outputs, hload, h⟩ := h
  split at h
  case isTrue => cases h
  case isFalse hin =>
    cases h
    have ⟨hnodup, new, heq, hvalid, hdenote⟩ :=
      foldlM_load (show (([] : List SetupState).map (·.outputIndex)).Nodup from List.nodup_nil) hload
    have heq : outputs = new := heq
    subst heq
    have henabled : outputs.any (·.enabled) := by simpa using fun h => hin (.inr h)
    exact ⟨⟨hvalid, hnodup, List.any_eq_true.mp henabled⟩, hdenote⟩

theorem load_save (h : setup.Valid outputDatas) : load outputDatas setup.save = some setup := by
  have ⟨setupState, hmem, henabled⟩ := h.enabled
  have hany : setup.outputs.any (·.enabled) := List.any_eq_true.mpr h.enabled
  have hne : ¬setup.outputs.isEmpty := fun hemp => List.not_mem_nil (List.isEmpty_iff.mp hemp ▸ hmem)
  have houtputs : loadOutputs outputDatas (setup.save.toObject.value "outputs").toArray = some setup.outputs :=
    @foldlM_save outputDatas [] setup.outputs h.states h.nodup
  simp only [load, Option.bind_eq_bind, Option.bind_eq_some_iff]
  refine ⟨_, houtputs, ?_⟩
  rw [if_neg fun hnot => hnot.elim hne fun hnot => hnot hany]
  rfl

end Setup

namespace OutputConfigurationStore

variable {setups : List Setup}

-- No setup has the same outputs as one before it.
def Distinct (setups : List Setup) : Prop :=
  setups.Pairwise fun setup other => ¬other.hasSameOutputs setup

theorem distinct_concat {setup : Setup} (h : Distinct setups) (hnew : ¬setups.any (setup.hasSameOutputs ·)) :
    Distinct (setups ++ [setup]) := by
  apply List.pairwise_append.mpr ⟨h, List.pairwise_singleton _ _, fun other ho e he => ?_⟩
  rw [List.mem_singleton.mp he]
  exact fun hsame => hnew (List.any_eq_true.mpr ⟨other, ho, hsame⟩)

theorem loadSetups_loaded (outputDatas : List (Option OutputState)) (values : List QJsonValue) :
    Distinct (loadSetups outputDatas values) ∧
      ∀ setup ∈ loadSetups outputDatas values, ∃ value ∈ values, Setup.load outputDatas value = some setup := by
  induction values using List.reverseRecOn
  case nil => exact ⟨.nil, fun _ he => absurd he List.not_mem_nil⟩
  case append_singleton values value ih =>
    have hstep : loadSetups outputDatas (values ++ [value]) = _ := List.foldl_concat ..
    obtain ⟨hdistinct, hfrom⟩ := ih
    have hfrom : ∀ setup ∈ loadSetups outputDatas values, ∃ value' ∈ values ++ [value],
        Setup.load outputDatas value' = some setup := by
      intro setup hs
      obtain ⟨value', hv, hload⟩ := hfrom setup hs
      exact ⟨value', List.mem_append_left _ hv, hload⟩
    rw [hstep]
    split
    case h_1 setup hload =>
      split
      case isTrue => exact ⟨hdistinct, hfrom⟩
      case isFalse hnew =>
        refine ⟨distinct_concat hdistinct hnew, fun setup' hs => ?_⟩
        cases List.mem_append.mp hs
        case inl hs => exact hfrom setup' hs
        case inr hs =>
          rw [List.mem_singleton.mp hs]
          exact ⟨value, List.mem_append_right _ (List.mem_singleton_self _), hload⟩
    case h_2 => exact ⟨hdistinct, hfrom⟩

theorem loadSetups_save (hvalid : ∀ setup ∈ setups, setup.Valid outputDatas) (hdistinct : Distinct setups) :
    loadSetups outputDatas (setups.map (·.save)) = setups := by
  induction setups using List.reverseRecOn
  case nil => rfl
  case append_singleton setups setup ih =>
    have ⟨hbefore, _, hnew⟩ := List.pairwise_append.mp hdistinct
    have hload := Setup.load_save (hvalid setup (List.mem_append_right _ (List.mem_singleton_self _)))
    have hrest := ih (fun setup hs => hvalid setup (List.mem_append_left _ hs)) hbefore
    have hany : ¬setups.any (setup.hasSameOutputs ·) := by
      intro hany
      have ⟨other, ho, hsame⟩ := List.any_eq_true.mp hany
      exact hnew other ho setup (List.mem_singleton_self _) hsame
    rw [loadSetups] at hrest ⊢
    rw [List.map_append, List.map_singleton, List.foldl_concat, hrest, hload]
    exact if_neg hany

end OutputConfigurationStore
end KWin
