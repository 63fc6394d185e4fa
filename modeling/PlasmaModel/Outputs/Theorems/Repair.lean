import PlasmaModel.Outputs.Theorems.Load

namespace KWin

variable {repaired : List OutputState} {outputDatas : List (Option OutputState)} {setups : List Setup}

-- Where the entry at `i` gets when those that are not present have been erased.
def place (present : List Bool) (i : Nat) : Nat :=
  (present.take i).count true

section

variable {present before after : List Bool} {i j : Nat}

theorem place_le (present : List Bool) (i : Nat) : place present i ≤ i :=
  Nat.le_trans List.count_le_length (by rw [List.length_take]; exact Nat.min_le_left _ _)

theorem place_replicate {n : Nat} (h : i ≤ n) : place (List.replicate n true) i = i := by
  rw [place, List.take_replicate, List.count_replicate_self, Nat.min_eq_left h]

theorem place_erase : place (before ++ false :: after) i =
    place (before ++ after) (if before.length < i then i - 1 else i) := by
  rw [place, place, List.take_append, List.take_append, List.count_append, List.count_append]
  split
  case isTrue hlt =>
    have hsub : i - before.length = (i - 1 - before.length) + 1 := by omega
    have htake : before.take i = before := List.take_of_length_le (Nat.le_of_lt hlt)
    have htake' : before.take (i - 1) = before := List.take_of_length_le (Nat.le_sub_one_of_lt hlt)
    rw [htake, htake', hsub, List.take_succ_cons, List.count_cons_of_ne (by decide)]
  case isFalse hge => rw [Nat.sub_eq_zero_of_le (by omega), List.take_zero, List.take_zero]

-- Entries that are present are not at the place that is erased.
theorem getElem?_erase (h : (before ++ false :: after)[i]? = some true) :
    i ≠ before.length ∧ (before ++ after)[if before.length < i then i - 1 else i]? = some true := by
  cases Nat.lt_trichotomy i before.length
  case inl hlt =>
    rw [List.getElem?_append_left hlt] at h
    rw [if_neg (Nat.not_lt.mpr (Nat.le_of_lt hlt)), List.getElem?_append_left hlt]
    exact ⟨Nat.ne_of_lt hlt, h⟩
  case inr hge =>
    cases hge
    case inl heq => simp [heq] at h
    case inr hgt =>
      have hsub : i - before.length = (i - 1 - before.length) + 1 := by omega
      rw [List.getElem?_append_right (Nat.le_of_lt hgt), hsub, List.getElem?_cons_succ] at h
      rw [if_pos hgt, List.getElem?_append_right (Nat.le_sub_one_of_lt hgt)]
      exact ⟨Nat.ne_of_gt hgt, h⟩

theorem place_lt (h : present[i]? = some true) (hlt : i < j) : place present i < place present j := by
  have hsucc : place present (i + 1) = place present i + 1 := by
    rw [place, place, List.take_add_one, h, Option.toList_some, List.count_append, List.count_singleton_self]
  have hmono : place present (i + 1) ≤ place present j := by
    rw [place, place]
    exact ((List.take_prefix_take_left hlt).sublist).count_le _
  omega

theorem place_inj (hi : present[i]? = some true) (hj : present[j]? = some true)
    (heq : place present i = place present j) : i = j := by
  cases Nat.lt_trichotomy i j
  case inl hlt => exact absurd heq (Nat.ne_of_lt (place_lt hi hlt))
  case inr hge =>
    cases hge
    case inl he => exact he
    case inr hgt => exact absurd heq (Nat.ne_of_gt (place_lt hj hgt))

theorem reduceOption_place {α : Type} {l : List (Option α)} {a : α} (h : l[i]? = some (some a)) :
    l.reduceOption[place (l.map Option.isSome) i]? = some a := by
  induction l generalizing i
  case nil => cases h
  case cons b l ih =>
    cases i
    case zero =>
      have hb : b = some a := by simpa using h
      rw [hb]
      rfl
    case succ i =>
      have hrest := ih (by simpa using h)
      cases b
      case none =>
        rw [List.reduceOption_cons_of_none]
        exact hrest
      case some b =>
        have hplace : place ((some b :: l).map Option.isSome) (i + 1) = place (l.map Option.isSome) i + 1 := by
          rw [place, List.map_cons, List.take_succ_cons]
          exact List.count_cons_self
        rw [List.reduceOption_cons_of_some, hplace, List.getElem?_cons_succ]
        exact hrest

end

namespace Setup

def moved (f : Nat → Nat) (setup : Setup) : Setup :=
  { setup with outputs := setup.outputs.map fun state => { state with outputIndex := f state.outputIndex } }

-- The states are those of entries that are present.
def InPlace (outputDatas : List (Option OutputState)) (setup : Setup) : Prop :=
  ∀ setupState ∈ setup.outputs, (outputDatas.map Option.isSome)[setupState.outputIndex]? = some true

theorem moved_congr {setup : Setup} {f g : Nat → Nat}
    (h : ∀ setupState ∈ setup.outputs, f setupState.outputIndex = g setupState.outputIndex) :
    setup.moved f = setup.moved g := by
  rw [moved, moved]
  congr 1
  apply List.map_congr_left
  intro setupState hs
  rw [h setupState hs]

theorem moved_id (setup : Setup) : setup.moved id = setup := by
  rw [moved]
  congr 1
  exact List.map_id _

theorem moved_moved (f g : Nat → Nat) (setup : Setup) : (setup.moved f).moved g = setup.moved (g ∘ f) := by
  rw [moved, moved, moved, List.map_map]
  rfl

theorem eraseOutput_moved {i : Nat} (h : ∀ setup ∈ setups, ∀ setupState ∈ setup.outputs, setupState.outputIndex ≠ i) :
    eraseOutput i setups = setups.map (·.moved fun index => if i < index then index - 1 else index) := by
  have hkeep : setups.filter (fun setup => !setup.outputs.any (·.outputIndex == i)) = setups := by
    rw [List.filter_eq_self]
    intro setup hs
    simpa using h setup hs
  rw [eraseOutput, hkeep]
  rfl

end Setup

namespace OutputConfigurationStore

theorem repair_setups (h : ∀ setup ∈ setups, setup.InPlace (repaired.map some ++ outputDatas)) :
    (repair repaired outputDatas setups).setups =
      setups.map (·.moved (place ((repaired.map some ++ outputDatas).map Option.isSome))) := by
  induction outputDatas generalizing repaired setups
  case nil =>
    have hpresent : (repaired.map some ++ []).map Option.isSome = List.replicate repaired.length true := by
      simp [Function.comp_def]
    have hself : ∀ setup ∈ setups, setup.moved (place (List.replicate repaired.length true)) = setup := by
      intro setup hs
      refine (Setup.moved_congr fun setupState hstate => ?_).trans setup.moved_id
      have hplace := h setup hs setupState hstate
      rw [hpresent] at hplace
      have ⟨hlt, _⟩ := List.getElem?_eq_some_iff.mp hplace
      exact place_replicate (Nat.le_of_lt (by simpa using hlt))
    rw [repair, hpresent, List.map_congr_left hself, List.map_id']
  case cons data outputDatas ih =>
    cases data
    case none =>
      have hbefore : ((repaired.map some).map Option.isSome).length = repaired.length := by simp
      have hpresent : (repaired.map some ++ none :: outputDatas).map Option.isSome =
          (repaired.map some).map Option.isSome ++ false :: outputDatas.map Option.isSome := by simp
      have herase (setup : Setup) (hs : setup ∈ setups) (setupState : SetupState)
          (hstate : setupState ∈ setup.outputs) :=
        getElem?_erase (hpresent ▸ h setup hs setupState hstate)
      have hmoved := Setup.eraseOutput_moved fun setup hs setupState hstate =>
        hbefore ▸ (herase setup hs setupState hstate).1
      have hplaces : ∀ setup ∈ setups.map (·.moved fun index => if repaired.length < index then index - 1 else index),
          setup.InPlace (repaired.map some ++ outputDatas) := by
        intro setup hs
        have ⟨original, horiginal, heq⟩ := List.mem_map.mp hs
        subst heq
        intro setupState hmem
        have ⟨state, hstate, heq⟩ := List.mem_map.mp hmem
        subst heq
        rw [List.map_append]
        exact hbefore ▸ (herase original horiginal state hstate).2
      rw [repair, hmoved, ih hplaces]
      rw [List.map_map]
      apply List.map_congr_left
      intro setup hs
      rw [Function.comp_apply, Setup.moved_moved]
      apply Setup.moved_congr
      intro setupState _
      rw [hpresent, place_erase, hbefore, List.map_append]
      rfl
    case some state =>
      have hpresent (new : OutputState) : ((repaired ++ [new]).map some ++ outputDatas).map Option.isSome =
          (repaired.map some ++ some state :: outputDatas).map Option.isSome := by simp
      rw [repair, ih, hpresent]
      intro setup hs
      rw [Setup.InPlace, hpresent]
      exact h setup hs

-- An entry can lose its uuid, but nothing else.
structure Repaired (state repaired : OutputState) : Prop where
  same : repaired = { state with uuid := repaired.uuid }
  uuid : repaired.uuid = none ∨ repaired.uuid = state.uuid

theorem repair_outputs (repaired : List OutputState) (outputDatas : List (Option OutputState)) (setups : List Setup) :
    ∃ rest, (repair repaired outputDatas setups).outputs = repaired ++ rest ∧
      List.Forall₂ Repaired outputDatas.reduceOption rest := by
  induction outputDatas generalizing repaired setups
  case nil => exact ⟨[], (List.append_nil _).symm, .nil⟩
  case cons data outputDatas ih =>
    cases data
    case none =>
      have ⟨rest, heq, hrest⟩ := ih repaired (Setup.eraseOutput repaired.length setups)
      exact ⟨rest, heq, by rwa [List.reduceOption_cons_of_none]⟩
    case some state =>
      have hcons (new : OutputState) (hnew : Repaired state new) (rest : List OutputState)
          (hrest : List.Forall₂ Repaired outputDatas.reduceOption rest) :
          repaired ++ [new] ++ rest = repaired ++ new :: rest ∧
            List.Forall₂ Repaired (some state :: outputDatas).reduceOption (new :: rest) := by
        rw [List.append_assoc, List.reduceOption_cons_of_some]
        exact ⟨rfl, .cons hnew hrest⟩
      simp only [repair]
      split
      case isTrue =>
        have ⟨rest, heq, hrest⟩ := ih (repaired ++ [{ state with uuid := none }]) setups
        have ⟨happend, hrest⟩ := hcons { state with uuid := none } ⟨rfl, .inl rfl⟩ rest hrest
        exact ⟨_, heq.trans happend, hrest⟩
      case isFalse =>
        have ⟨rest, heq, hrest⟩ := ih (repaired ++ [state]) setups
        have ⟨happend, hrest⟩ := hcons state ⟨rfl, .inr rfl⟩ rest hrest
        exact ⟨_, heq.trans happend, hrest⟩

-- No uuid of a repaired entry is still to come.
theorem repair_uuids (setups : List Setup) (hnodup : (repaired.filterMap (·.uuid)).Nodup)
    (hnew : ∀ uuid ∈ repaired.filterMap (·.uuid), uuid ∉ outputDatas.reduceOption.filterMap (·.uuid)) :
    (repair repaired outputDatas setups).uuids.Nodup := by
  induction outputDatas generalizing repaired setups
  case nil => exact hnodup
  case cons data outputDatas ih =>
    cases data
    case none => exact ih _ hnodup hnew
    case some state =>
      have hlater : ∀ uuid ∈ repaired.filterMap (·.uuid), uuid ∉ outputDatas.reduceOption.filterMap (·.uuid) := by
        intro uuid hu hmem
        apply hnew uuid hu
        rw [List.reduceOption_cons_of_some]
        have ⟨other, ho, heq⟩ := List.mem_filterMap.mp hmem
        exact List.mem_filterMap.mpr ⟨other, List.mem_cons_of_mem _ ho, heq⟩
      simp only [repair]
      split
      case isTrue =>
        have hsame : (repaired ++ [{ state with uuid := none }]).filterMap (fun output : OutputState => output.uuid) =
            repaired.filterMap (·.uuid) := by
          rw [List.filterMap_append]
          exact List.append_nil _
        apply ih <;> rwa [hsame]
      case isFalse hcount =>
        cases hu : state.uuid
        case none =>
          have hsame : (repaired ++ [state]).filterMap (·.uuid) = repaired.filterMap (·.uuid) := by
            simp [List.filterMap_append, hu]
          apply ih <;> rwa [hsame]
        case some uuid =>
          have hsame : (repaired ++ [state]).filterMap (·.uuid) = repaired.filterMap (·.uuid) ++ [uuid] := by
            simp [List.filterMap_append, hu]
          rw [List.countP_cons_of_pos (by simp)] at hcount
          have hbefore : uuid ∉ repaired.filterMap (·.uuid) := by
            intro hmem
            have ⟨other, ho, heq⟩ := List.mem_filterMap.mp hmem
            have hpos : 0 < repaired.countP (·.uuid == state.uuid) :=
              List.countP_pos_iff.mpr ⟨other, ho, by simp [heq, hu]⟩
            omega
          have hafter : uuid ∉ outputDatas.reduceOption.filterMap (·.uuid) := by
            intro hmem
            have ⟨other, ho, heq⟩ := List.mem_filterMap.mp hmem
            have hpos : 0 < outputDatas.countP fun data => data.any (·.uuid == state.uuid) :=
              List.countP_pos_iff.mpr ⟨some other, List.reduceOption_mem_iff.mp ho, by simp [heq, hu]⟩
            omega
          apply ih
          case hnodup =>
            rw [hsame]
            apply hnodup.append (List.nodup_singleton _)
            intro u hmem hu
            exact hbefore (List.mem_singleton.mp hu ▸ hmem)
          case hnew =>
            rw [hsame]
            intro u hmem
            cases List.mem_append.mp hmem
            case inl hmem => exact hlater u hmem
            case inr hmem => exact List.mem_singleton.mp hmem ▸ hafter

end OutputConfigurationStore
end KWin
