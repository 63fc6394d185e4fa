import Mathlib.Data.List.Perm.Subperm
import PlasmaModel.Outputs.Store

namespace KWin

variable {store : OutputConfigurationStore} {outputs : List BackendOutput} {output other : BackendOutput} {i : Nat}

namespace OutputConfigurationStore

def identifications (store : OutputConfigurationStore) : List OutputIdentification :=
  store.outputs.map (·.toOutputIdentification)

def uuids (store : OutputConfigurationStore) : List String :=
  store.outputs.filterMap (·.uuid)

-- The uuid of the entry at `i`.
def uuidAt (store : OutputConfigurationStore) (i : Nat) : Option String :=
  store.outputs[i]?.bind (·.uuid)

theorem eq_of_countP_eq_one {α : Type} {p : α → Bool} {l : List α} {a b : α} (h : l.countP p = 1)
    (ha : a ∈ l) (hb : b ∈ l) (hpa : p a) (hpb : p b) : a = b := by
  rw [List.countP_eq_length_filter] at h
  have ⟨c, hc⟩ := List.length_eq_one_iff.mp h
  have ha : a ∈ l.filter p := List.mem_filter.mpr ⟨ha, hpa⟩
  have hb : b ∈ l.filter p := List.mem_filter.mpr ⟨hb, hpb⟩
  rw [hc, List.mem_singleton] at ha hb
  rw [ha, hb]

theorem nodup_filterMap_iff {α β : Type} {f : α → Option β} {l : List α} : (l.filterMap f).Nodup ↔
    ∀ (i j : Nat) (a b : α) (c : β), l[i]? = some a → l[j]? = some b → f a = some c → f b = some c → i = j := by
  rw [List.nodup_iff_pairwise_ne, List.pairwise_filterMap, List.pairwise_iff_getElem]
  apply Iff.intro
  case mp =>
    intro h i j a b c ha hb hac hbc
    have ⟨hi, ha⟩ := List.getElem?_eq_some_iff.mp ha
    have ⟨hj, hb⟩ := List.getElem?_eq_some_iff.mp hb
    subst ha hb
    have not_lt : ¬i < j := fun hlt => h i j hi hj hlt c hac c hbc rfl
    have not_gt : ¬j < i := fun hlt => h j i hj hi hlt c hbc c hac rfl
    exact Nat.le_antisymm (Nat.not_lt.mp not_gt) (Nat.not_lt.mp not_lt)
  case mpr =>
    intro h i j hi hj hlt c hac d hbd he
    have hij := h i j _ _ c (List.getElem?_eq_getElem hi) (List.getElem?_eq_getElem hj) hac (he ▸ hbd)
    omega

theorem nodup_iff {α : Type} {l : List α} : l.Nodup ↔
    ∀ (i j : Nat) (a : α), l[i]? = some a → l[j]? = some a → i = j := by
  have h := nodup_filterMap_iff (f := @some α) (l := l)
  rw [List.filterMap_some] at h
  rw [h]
  apply Iff.intro
  case mp => exact fun h i j a hi hj => h i j a a a hi hj rfl rfl
  case mpr =>
    intro h i j a b c hi hj hac hbc
    cases hac
    cases hbc
    exact h i j _ hi hj

theorem mem_filterBy {props : Properties} : i ∈ store.filterBy props ↔
    ∃ id, store.identifications[i]? = some id ∧ props.matches id := by
  rw [filterBy, identifications, List.mem_filter, List.mem_range, List.getElem?_map]
  apply Iff.intro
  case mp =>
    intro ⟨hlt, h⟩
    rw [List.getElem?_eq_getElem hlt] at h ⊢
    exact ⟨_, rfl, h⟩
  case mpr =>
    intro ⟨id, hid, h⟩
    have ⟨state, hs, hid⟩ := Option.map_eq_some_iff.mp hid
    have ⟨hlt, _⟩ := List.getElem?_eq_some_iff.mp hs
    subst hid
    exact ⟨hlt, hs ▸ h⟩

-- An entry that is found for one output does not have the properties of another one.
theorem findOutputIndex_separates (hnames : (outputs.map (·.name)).Nodup) (ho : output ∈ outputs)
    (h : store.findOutputIndex output outputs = some i) :
    ∃ id, store.identifications[i]? = some id ∧ ∀ other ∈ outputs, other.identification = id → other = output := by
  have found {props : Properties} (hm : (store.filterBy props).head? = some i)
      (heq : ∀ other ∈ outputs, props.matches other.identification → other = output) :
      ∃ id, store.identifications[i]? = some id ∧ ∀ other ∈ outputs, other.identification = id → other = output := by
    have ⟨id, hid, hprops⟩ := mem_filterBy.mp (List.mem_of_mem_head? hm)
    exact ⟨id, hid, fun other hother he => heq other hother (he ▸ hprops)⟩
  simp only [findOutputIndex] at h
  generalize (if (store.filterBy { edidIdentifier := output.edidIdentifier }).isEmpty = true then "" else
    output.edidIdentifier) = edidId at h
  split at h
  case isTrue hid =>
    apply found h
    intro other hother hprops
    refine eq_of_countP_eq_one hid.2.2 hother ho ?_ (by simp)
    simpa [Properties.matches, BackendOutput.identification] using hprops
  case isFalse =>
    split at h
    case isTrue hhash =>
      apply found h
      intro other hother hprops
      refine eq_of_countP_eq_one hhash.1 hother ho ?_ (by simp)
      simp only [Properties.matches, BackendOutput.identification, Bool.and_eq_true] at hprops
      exact hprops.1.1.2
    case isFalse =>
      split at h
      case isTrue hmst =>
        apply found h
        intro other hother hprops
        refine eq_of_countP_eq_one hmst.1.2 hother ho ?_ (by simp)
        simp only [Properties.matches, BackendOutput.identification, Bool.and_eq_true] at hprops ⊢
        exact ⟨hprops.1.1.2, hprops.1.2⟩
      case isFalse =>
        apply found h
        intro other hother hprops
        simp only [Properties.matches, BackendOutput.identification, Bool.and_eq_true] at hprops
        exact (List.inj_on_of_nodup_map hnames ho hother (eq_of_beq hprops.2)).symm

theorem head?_of_unique {l : List Nat} (h : i ∈ l) (heq : ∀ j ∈ l, j = i) : l.head? = some i := by
  cases l
  case nil => cases h
  case cons j l => rw [List.head?_cons, heq j List.mem_cons_self]

theorem head?_of_length_le_one {l : List Nat} (h : i ∈ l) (hl : l.length ≤ 1) : l.head? = some i := by
  match l, h, hl with
  | [j], h, _ => rw [List.head?_cons, List.mem_singleton.mp h]

-- An entry with all the properties of an output is the one that is found for it.
theorem findOutputIndex_of_registered (hids : store.identifications.Nodup)
    (h : store.identifications[i]? = some output.identification) (outputs : List BackendOutput) :
    store.findOutputIndex output outputs = some i := by
  have mem {props : Properties} (hp : props.matches output.identification) : i ∈ store.filterBy props :=
    mem_filterBy.mpr ⟨_, h, hp⟩
  have hid : i ∈ store.filterBy { edidIdentifier := output.edidIdentifier } :=
    mem (by simp [Properties.matches, BackendOutput.identification])
  have hne : ¬(store.filterBy { edidIdentifier := output.edidIdentifier }).isEmpty :=
    fun hemp => List.not_mem_nil (List.isEmpty_iff.mp hemp ▸ hid)
  simp only [findOutputIndex, if_neg hne]
  split
  case isTrue hone => exact head?_of_length_le_one hid (Nat.le_of_eq hone.1)
  case isFalse =>
    split
    case isTrue hone =>
      exact head?_of_length_le_one (mem (by simp [Properties.matches, BackendOutput.identification])) hone.2
    case isFalse =>
      split
      case isTrue hone =>
        exact head?_of_length_le_one (mem (by simp [Properties.matches, BackendOutput.identification]))
          (Nat.le_of_eq hone.2)
      case isFalse =>
        apply head?_of_unique (mem (by simp [Properties.matches, BackendOutput.identification]))
        intro j hj
        have ⟨id, hid, hprops⟩ := mem_filterBy.mp hj
        have hid' : id = output.identification := by
          simp only [Properties.matches, Option.all_some, Bool.and_eq_true, beq_iff_eq] at hprops
          have ⟨⟨⟨h₁, h₂⟩, h₃⟩, h₄⟩ := hprops
          simp only [BackendOutput.identification, h₁, h₂, h₃, h₄]
        have ⟨hlt, _⟩ := List.getElem?_eq_some_iff.mp hid
        exact (List.getElem?_inj hlt hids).mp ((hid.trans (congrArg some hid')).trans h.symm)

-- Registering an output changes one entry, which can be new, and this is not an entry of another output.
structure Registers (store store' : OutputConfigurationStore) (outputs : List BackendOutput) (output : BackendOutput)
    (uuid : String) (i : Nat) : Prop where
  entry  : store'.outputs[i]? = some ((store.outputs[i]?.getD {}).register output uuid)
  others : ∀ j ≠ i, store'.outputs[j]? = store.outputs[j]?
  own    : ∀ other ∈ outputs, store.identifications[i]? = some other.identification → other = output
  known  : store.identifications.Nodup → ∀ k, store.identifications[k]? = some output.identification → i = k
  setups : store'.setups = store.setups

theorem registerOutput_registers (hnames : (outputs.map (·.name)).Nodup) (ho : output ∈ outputs)
    (hr : output.isRelevant) (store : OutputConfigurationStore) (uuid : String) :
    ∃ i, Registers store (store.registerOutput outputs uuid output) outputs output uuid i := by
  simp only [registerOutput, if_pos hr]
  cases hf : store.findOutputIndex output outputs
  case some i =>
    have ⟨id, hid, hown⟩ := findOutputIndex_separates hnames ho hf
    rw [identifications, List.getElem?_map] at hid
    have ⟨state, hs, _⟩ := Option.map_eq_some_iff.mp hid
    refine ⟨i, ?_, fun j hj => ?_, fun other hother he => ?_, fun hids k hk => ?_, rfl⟩
    case refine_1 => simp [hs]
    case refine_2 => simp [hj.symm]
    case refine_3 =>
      rw [identifications, List.getElem?_map, hid] at he
      exact hown other hother (Option.some.inj he).symm
    case refine_4 => exact Option.some.inj (hf.symm.trans (findOutputIndex_of_registered hids hk outputs))
  case none =>
    refine ⟨store.outputs.length, ?_, fun j hj => ?_, fun other hother he => ?_, fun hids k hk => ?_, rfl⟩
    case refine_1 => simp
    case refine_2 =>
      simp only [Option.getD_none, Option.isSome_none, Bool.false_eq_true, if_false, List.getElem?_modify,
        if_neg hj.symm, List.getElem?_append]
      split
      case isTrue => simp
      case isFalse hlt =>
        rw [List.getElem?_eq_none (by simp; omega), List.getElem?_eq_none (by omega)]
        rfl
    case refine_3 =>
      rw [identifications, List.getElem?_map, List.getElem?_eq_none (Nat.le_refl _)] at he
      cases he
    case refine_4 =>
      have hk := findOutputIndex_of_registered hids hk outputs
      rw [hf] at hk
      cases hk

theorem uuids_nodup_iff : store.uuids.Nodup ↔
    ∀ i j uuid, store.uuidAt i = some uuid → store.uuidAt j = some uuid → i = j := by
  rw [uuids, nodup_filterMap_iff]
  simp only [uuidAt, Option.bind_eq_some_iff]
  apply Iff.intro
  case mp => exact fun h i j uuid ⟨s, hs, hsu⟩ ⟨t, ht, htu⟩ => h i j s t uuid hs ht hsu htu
  case mpr => exact fun h i j s t uuid hs ht hsu htu => h i j uuid ⟨s, hs, hsu⟩ ⟨t, ht, htu⟩

theorem mem_uuids {uuid : String} : uuid ∈ store.uuids ↔ ∃ i, store.uuidAt i = some uuid := by
  rw [uuids, List.mem_filterMap]
  simp only [uuidAt, List.mem_iff_getElem?, Option.bind_eq_some_iff]
  apply Iff.intro
  case mp => exact fun ⟨state, ⟨i, hi⟩, hu⟩ => ⟨i, state, hi, hu⟩
  case mpr => exact fun ⟨i, state, hi, hu⟩ => ⟨state, ⟨i, hi⟩, hu⟩

namespace Registers

variable {store' : OutputConfigurationStore} {uuid : String}

theorem identifications (h : Registers store store' outputs output uuid i) (j : Nat) :
    store'.identifications[j]? = if j = i then some output.identification else store.identifications[j]? := by
  simp only [OutputConfigurationStore.identifications, List.getElem?_map]
  split
  case isTrue hj =>
    rw [hj, h.entry]
    rfl
  case isFalse hj => rw [h.others j hj]

theorem uuidAt (h : Registers store store' outputs output uuid i) (j : Nat) :
    store'.uuidAt j = if j = i then some ((store.uuidAt i).getD uuid) else store.uuidAt j := by
  simp only [OutputConfigurationStore.uuidAt]
  split
  case isTrue hj =>
    rw [hj, h.entry]
    cases store.outputs[i]?
    case none => rfl
    case some => rfl
  case isFalse hj => rw [h.others j hj]

theorem identifications_nodup (h : Registers store store' outputs output uuid i)
    (hids : store.identifications.Nodup) : store'.identifications.Nodup := by
  rw [nodup_iff]
  intro j k id hj hk
  rw [h.identifications] at hj hk
  split at hj
  case isTrue hji =>
    split at hk
    case isTrue hki => rw [hji, hki]
    case isFalse hki => exact hji ▸ h.known hids k (hj ▸ hk)
  case isFalse hji =>
    split at hk
    case isTrue hki => exact hki ▸ (h.known hids j (hk ▸ hj)).symm
    case isFalse => exact nodup_iff.mp hids j k id hj hk

-- No other output loses its entry.
theorem keeps (h : Registers store store' outputs output uuid i) (ho : other ∈ outputs) {k : Nat}
    (hk : store.identifications[k]? = some other.identification) :
    store'.identifications[k]? = some other.identification := by
  rw [h.identifications]
  split
  case isTrue hki => rw [h.own other ho (hki ▸ hk)]
  case isFalse => exact hk

theorem uuid_kept (h : Registers store store' outputs output uuid i) {k : Nat} {u : String}
    (hk : store.uuidAt k = some u) : store'.uuidAt k = some u := by
  rw [h.uuidAt]
  split
  case isTrue hki =>
    rw [← hki, hk]
    rfl
  case isFalse => exact hk

theorem mem_uuids (h : Registers store store' outputs output uuid i) {u : String} (hu : u ∈ store'.uuids) :
    u = uuid ∨ u ∈ store.uuids := by
  have ⟨k, hk⟩ := OutputConfigurationStore.mem_uuids.mp hu
  rw [h.uuidAt] at hk
  split at hk
  case isTrue =>
    cases hi : store.uuidAt i
    case none =>
      rw [hi] at hk
      exact .inl (Option.some.inj hk).symm
    case some u' =>
      rw [hi] at hk
      exact .inr (OutputConfigurationStore.mem_uuids.mpr ⟨i, hi.trans hk⟩)
  case isFalse => exact .inr (OutputConfigurationStore.mem_uuids.mpr ⟨k, hk⟩)

theorem uuids_nodup (h : Registers store store' outputs output uuid i) (huuids : store.uuids.Nodup)
    (hfresh : uuid ∉ store.uuids) : store'.uuids.Nodup := by
  have same {k : Nat} {u : String} (hi : (store.uuidAt i).getD uuid = u) (hk : store.uuidAt k = some u) : i = k := by
    cases hold : store.uuidAt i
    case none =>
      have hi : uuid = u := by rw [← hi, hold, Option.getD_none]
      exact absurd (OutputConfigurationStore.mem_uuids.mpr ⟨k, hi ▸ hk⟩) hfresh
    case some u' =>
      rw [hold] at hi
      exact uuids_nodup_iff.mp huuids i k u (hold.trans (congrArg some hi)) hk
  rw [uuids_nodup_iff]
  intro j k u hj hk
  rw [h.uuidAt] at hj hk
  split at hj
  case isTrue hji =>
    split at hk
    case isTrue hki => rw [hji, hki]
    case isFalse => exact hji ▸ same (Option.some.inj hj) hk
  case isFalse =>
    split at hk
    case isTrue hki => exact hki ▸ (same (Option.some.inj hk) hj).symm
    case isFalse => exact uuids_nodup_iff.mp huuids j k u hj hk

end Registers
end OutputConfigurationStore
end KWin
