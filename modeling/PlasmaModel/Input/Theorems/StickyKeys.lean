import PlasmaModel.Input.StickyKeys

namespace KWin

def Xkb.flags (xkb : Xkb) (mod : Xkb.Modifier) : Bool × Bool :=
  (xkb.latched mod, xkb.locked mod)

def KeyState.flags (state : KeyState) : Bool × Bool :=
  (state = .latched, state = .locked)

namespace Xkb

variable {xkb : Xkb} {mod mod' : Modifier} {b : Bool}
variable {tell tell' : Xkb → Modifier → Xkb} {f f' : Bool × Bool → Bool × Bool}

-- What the keyboard is told of a modifier changes the flags of this modifier alone, and telling it twice changes no more.
structure Tells (tell : Xkb → Modifier → Xkb) (f : Bool × Bool → Bool × Bool) : Prop where
  flags : ∀ {xkb mod}, mod.hasIndex → ∀ mod', (tell xkb mod).flags mod' =
    if mod' = mod then f (xkb.flags mod') else xkb.flags mod'
  twice : ∀ b, f (f b) = f b

theorem tells_latched (b : Bool) : Tells (setModifierLatched · · b) fun flags => (b, flags.2) where
  flags hi mod' := by
    simp only [setModifierLatched, hi, if_true, Xkb.flags]
    split <;> rfl
  twice _ := rfl

theorem tells_locked (b : Bool) : Tells (setModifierLocked · · b) fun flags => (flags.1, b) where
  flags hi mod' := by
    simp only [setModifierLocked, hi, if_true, Xkb.flags]
    split <;> rfl
  twice _ := rfl

theorem Tells.comp (h : Tells tell f) (h' : Tells tell' f') (hf : ∀ b, f' (f (f' (f b))) = f' (f b)) :
    Tells (fun xkb mod => tell' (tell xkb mod) mod) (f' ∘ f) where
  flags hi mod' := by
    rw [h'.flags hi, h.flags hi]
    split <;> rfl
  twice := hf

theorem Tells.flags_foldl {mods : List Modifier} (h : Tells tell f) (hi : ∀ mod ∈ mods, mod.hasIndex) :
    (mods.foldl tell xkb).flags mod = if mod ∈ mods then f (xkb.flags mod) else xkb.flags mod := by
  induction mods generalizing xkb
  case nil => rfl
  case cons mod' mods ih =>
    have ⟨hm, hi⟩ := List.forall_mem_cons.mp hi
    rw [List.foldl_cons, ih hi, h.flags hm]
    by_cases he : mod = mod' <;> simp [he, h.twice]

end Xkb

namespace StickyKeysFilter

open Xkb (Tells)

variable {s s' : StickyKeysFilter} {key key' : Key} {resets : KeyState → Bool} {state : KeyState}
variable {entry : Key × KeyState} {tell : Xkb → Xkb.Modifier → Xkb} {f : Bool × Bool → Bool × Bool}

theorem nodup_modifiers : modifiers.Nodup := by
  decide

theorem hasIndex_keyToModifier : ∀ key ∈ modifiers, (keyToModifier key).hasIndex := by
  decide

theorem keyToModifier_inj :
    ∀ key ∈ modifiers, ∀ key' ∈ modifiers, keyToModifier key = keyToModifier key' → key = key' := by
  decide

theorem unlatch_tells : Tells unlatch fun flags => (false, flags.2) :=
  Xkb.tells_latched false

theorem unlock_tells : Tells unlock fun flags => (flags.1, false) :=
  Xkb.tells_locked false

-- The states of all modifiers are recorded, and the keyboard has no other flags set.
structure Filled (s : StickyKeysFilter) : Prop where
  keys   : s.keyStates.map Prod.fst = modifiers
  others : ∀ mod ∉ modifiers.map keyToModifier, s.xkb.flags mod = KeyState.none.flags

def Cleared (s : StickyKeysFilter) : Prop :=
  ∀ entry ∈ s.keyStates, entry.2 = .none

-- The keyboard has the flags set that the recorded states stand for.
def Synced (s : StickyKeysFilter) : Prop :=
  ∀ entry ∈ s.keyStates, s.xkb.flags (keyToModifier entry.1) = entry.2.flags

theorem synced_emit {outputs : List Output} : (s.emit outputs).Synced ↔ s.Synced :=
  .rfl

theorem cleared_emit {outputs : List Output} : (s.emit outputs).Cleared ↔ s.Cleared :=
  .rfl

namespace Filled

theorem emit (h : s.Filled) {outputs : List Output} : (s.emit outputs).Filled :=
  { h with }

theorem mem_modifiers (h : s.Filled) (hm : entry ∈ s.keyStates) : entry.1 ∈ modifiers :=
  h.keys ▸ List.mem_map_of_mem hm

theorem eq_of_mem (h : s.Filled) {entry' : Key × KeyState} (hm : entry ∈ s.keyStates) (hm' : entry' ∈ s.keyStates)
    (he : entry.1 = entry'.1) : entry = entry' :=
  List.inj_on_of_nodup_map (h.keys ▸ nodup_modifiers) hm hm' he

theorem exists_mem (h : s.Filled) (hk : key ∈ modifiers) : ∃ state, (key, state) ∈ s.keyStates := by
  rw [← h.keys] at hk
  have ⟨⟨_, state⟩, hm, he⟩ := List.mem_map.mp hk
  cases he
  exact ⟨state, hm⟩

theorem keyState_eq_some_iff (h : s.Filled) : s.keyState key = some state ↔ (key, state) ∈ s.keyStates := by
  constructor
  case mp =>
    intro hl
    have ⟨l₁, l₂, he, _⟩ := List.lookup_eq_some_iff.mp hl
    exact he ▸ List.mem_append_right _ List.mem_cons_self
  case mpr =>
    intro hm
    cases hl : s.keyState key with
    | none => simpa using List.lookup_eq_none_iff.mp hl _ hm
    | some state' =>
      have ⟨l₁, l₂, he, _⟩ := List.lookup_eq_some_iff.mp hl
      have hm' : (key, state') ∈ s.keyStates := he ▸ List.mem_append_right _ List.mem_cons_self
      rw [(Prod.mk.inj (h.eq_of_mem hm' hm rfl)).2]

theorem flags_resetStates (h : s.Filled) (ht : Tells tell f) {mod : Xkb.Modifier} :
    (s.resetStates resets tell).xkb.flags mod =
      if ∃ entry ∈ s.keyStates, resets entry.2 ∧ keyToModifier entry.1 = mod then f (s.xkb.flags mod)
      else s.xkb.flags mod := by
  have hfold : (s.resetStates resets tell).xkb =
      ((s.keyStates.filter (resets ·.2)).map (keyToModifier ·.1)).foldl tell s.xkb := List.foldl_map.symm
  have hi : ∀ mod ∈ (s.keyStates.filter (resets ·.2)).map (keyToModifier ·.1), mod.hasIndex := by
    intro mod hm
    have ⟨entry, he, hm⟩ := List.mem_map.mp hm
    exact hm ▸ hasIndex_keyToModifier _ (h.mem_modifiers (List.mem_of_mem_filter he))
  rw [hfold, ht.flags_foldl hi]
  simp only [List.mem_map, List.mem_filter, and_assoc]

theorem flags_resetStates_mem (h : s.Filled) (ht : Tells tell f) (hm : entry ∈ s.keyStates) :
    (s.resetStates resets tell).xkb.flags (keyToModifier entry.1) =
      if resets entry.2 then f (s.xkb.flags (keyToModifier entry.1)) else s.xkb.flags (keyToModifier entry.1) := by
  rw [h.flags_resetStates ht]
  refine if_congr ⟨?_, fun hr => ⟨entry, hm, hr, rfl⟩⟩ rfl rfl
  rintro ⟨entry', hm', hr, he⟩
  have he := keyToModifier_inj _ (h.mem_modifiers hm') _ (h.mem_modifiers hm) he
  exact h.eq_of_mem hm' hm he ▸ hr

theorem resetStates (h : s.Filled) (ht : Tells tell f) : (s.resetStates resets tell).Filled where
  keys := by
    rw [StickyKeysFilter.resetStates, List.map_map]
    exact h.keys
  others mod hm := by
    rw [h.flags_resetStates ht, if_neg]
    · exact h.others mod hm
    · rintro ⟨entry, he, -, rfl⟩
      exact hm (List.mem_map_of_mem (h.mem_modifiers he))

theorem resetStates_synced_iff (h : s.Filled) (hs : s.Synced) (ht : Tells tell f) :
    (s.resetStates resets tell).Synced ↔
      ∀ entry ∈ s.keyStates, resets entry.2 → f entry.2.flags = KeyState.none.flags := by
  refine List.forall_mem_map.trans (forall₂_congr fun entry hm => ?_)
  dsimp only
  rw [h.flags_resetStates_mem ht hm, hs entry hm]
  split
  case isTrue hr => exact ⟨fun he _ => he, fun he => he hr⟩
  case isFalse hr => exact iff_of_true rfl fun hr' => (hr hr').elim

theorem setFlags (h : s.Filled) (hk : key ∈ modifiers) {xkb : Xkb}
    (hx : ∀ mod, xkb.flags mod = if mod = keyToModifier key then state.flags else s.xkb.flags mod) :
    { s.setKeyState key state with xkb }.Filled where
  keys := by
    rw [setKeyState, List.map_map]
    exact h.keys
  others mod hm := by
    rw [hx, if_neg]
    · exact h.others mod hm
    · rintro rfl
      exact hm (List.mem_map_of_mem hk)

theorem setFlags_synced (h : s.Filled) (hs : s.Synced) (hk : key ∈ modifiers) {xkb : Xkb}
    (hx : ∀ mod, xkb.flags mod = if mod = keyToModifier key then state.flags else s.xkb.flags mod) :
    { s.setKeyState key state with xkb }.Synced := by
  refine List.forall_mem_map.mpr fun entry hm => ?_
  dsimp only
  rw [hx]
  by_cases he : entry.1 = key
  case pos => rw [he, if_pos rfl, if_pos rfl]
  case neg =>
    rw [if_neg, if_neg he, hs entry hm]
    exact fun hmod => he (keyToModifier_inj _ (h.mem_modifiers hm) _ hk hmod)

end Filled

theorem resetStates_cleared (hr : ∀ state, state ≠ .none → resets state) : (s.resetStates resets tell).Cleared := by
  refine List.forall_mem_map.mpr fun entry _ => ?_
  change (if resets entry.2 then KeyState.none else entry.2) = .none
  split
  case isTrue => rfl
  case isFalse h => exact of_not_not fun hn => h (hr _ hn)

theorem Cleared.resetStates (h : s.Cleared) : (s.resetStates resets tell).Cleared := by
  refine List.forall_mem_map.mpr fun entry hm => ?_
  change (if resets entry.2 then KeyState.none else entry.2) = .none
  rw [h entry hm, ite_self]

-- What holds of every state: a filter that is not installed has no state recorded.
structure Kept (s : StickyKeysFilter) : Prop extends Filled s where
  uninstalled : s.installed = false → s.Cleared

theorem xkb_construct {group : KConfigGroup} : (construct group).xkb = {} := by
  rw [construct, loadConfig, readConfig, unlockKeys]
  dsimp only
  split <;> split <;> rfl

theorem kept_construct {group : KConfigGroup} : (construct group).Kept where
  keys := rfl
  others _ _ := xkb_construct ▸ rfl
  uninstalled _ := List.forall_mem_map.mpr fun _ _ => rfl

theorem synced_construct {group : KConfigGroup} : (construct group).Synced :=
  List.forall_mem_map.mpr fun _ _ => xkb_construct ▸ rfl

namespace Filled

variable {group : KConfigGroup}

theorem unlockKeys (h : s.Filled) : s.unlockKeys.Filled := by
  rw [StickyKeysFilter.unlockKeys]
  split
  case isTrue => exact h
  case isFalse => exact h.resetStates unlock_tells

theorem unlockKeys_synced (h : s.Filled) (hs : s.Synced) : s.unlockKeys.Synced := by
  rw [StickyKeysFilter.unlockKeys]
  split
  case isTrue => exact hs
  case isFalse =>
    rw [h.resetStates_synced_iff hs unlock_tells]
    intro entry _ hr
    rw [of_decide_eq_true hr]
    rfl

theorem unlockKeys_locked_iff :
    (∀ entry ∈ s.unlockKeys.keyStates, entry.2 ≠ .locked) ↔
      (s.lockKeys → ∀ entry ∈ s.keyStates, entry.2 ≠ .locked) := by
  rw [StickyKeysFilter.unlockKeys]
  split
  case isTrue hl => exact ⟨fun h _ => h, fun h => h hl⟩
  case isFalse hl =>
    refine iff_of_true (List.forall_mem_map.mpr fun entry _ => ?_) fun hl' => (hl hl').elim
    dsimp only
    split
    case isTrue => exact KeyState.noConfusion
    case isFalse h => exact fun he => h (decide_eq_true he)

theorem readConfig (h : s.Filled) : (s.readConfig group).Filled :=
  { h with }

theorem loadConfig (h : s.Filled) : (s.loadConfig group).Filled := by
  have hu : (s.readConfig group).unlockKeys.Filled := h.readConfig.unlockKeys
  rw [StickyKeysFilter.loadConfig]
  split
  case isTrue => exact { hu with }
  case isFalse => exact (hu.resetStates unlatch_tells).emit

theorem loadConfig_synced_iff (h : s.Filled) (hs : s.Synced) :
    (s.loadConfig group).Synced ↔
      (group.readEntry "StickyKeys" false = false → group.readEntry "StickyKeysLatch" true →
        ∀ entry ∈ s.keyStates, entry.2 ≠ .locked) := by
  have hu : (s.readConfig group).unlockKeys.Filled := h.readConfig.unlockKeys
  have hsu : (s.readConfig group).unlockKeys.Synced := h.readConfig.unlockKeys_synced hs
  rw [StickyKeysFilter.loadConfig]
  split
  case isTrue he => exact iff_of_true hsu fun he' => (Bool.eq_false_iff.mp he' he).elim
  case isFalse he =>
    rw [Bool.eq_false_iff, forall_prop_of_true he, synced_emit]
    refine (hu.resetStates_synced_iff hsu unlatch_tells).trans (Iff.trans ?_ (unlockKeys_locked_iff (s := s.readConfig group)))
    refine forall₂_congr fun entry _ => ?_
    cases entry.2 <;> decide

end Filled

theorem loadConfig_uninstalled {group : KConfigGroup} (hi : (s.loadConfig group).installed = false) :
    (s.loadConfig group).Cleared := by
  revert hi
  rw [loadConfig]
  split
  case isTrue => exact fun hi => Bool.noConfusion hi
  case isFalse => exact fun _ => cleared_emit.mpr (resetStates_cleared fun _ hn => decide_eq_true hn)

theorem disableStickyKeys_tells :
    Tells (fun xkb mod => unlock (unlatch xkb mod) mod) fun _ => KeyState.none.flags :=
  unlatch_tells.comp unlock_tells fun _ => rfl

namespace Kept

theorem loadConfig (h : s.Kept) {group : KConfigGroup} : (s.loadConfig group).Kept :=
  ⟨h.toFilled.loadConfig, loadConfig_uninstalled⟩

theorem of_installed (h : s.Filled) (hi : s.installed) : s.Kept :=
  ⟨h, fun hf => (Bool.eq_false_iff.mp hf hi).elim⟩

theorem emit (h : s.Kept) {outputs : List Output} : (s.emit outputs).Kept :=
  { h with }

theorem resetStates (h : s.Kept) (ht : Tells tell f) : (s.resetStates resets tell).Kept :=
  ⟨h.toFilled.resetStates ht, fun hi => (h.uninstalled hi).resetStates⟩

theorem unlatchUnlocked (h : s.Kept) (hs : s.Synced) :
    (s.resetStates (· ≠ .locked) unlatch).Kept ∧ (s.resetStates (· ≠ .locked) unlatch).Synced := by
  refine ⟨h.resetStates unlatch_tells, (h.resetStates_synced_iff hs unlatch_tells).mpr fun entry _ hr => ?_⟩
  cases he : entry.2 with
  | locked => simp [he] at hr
  | none => rfl
  | latched => rfl

theorem disableStickyKeys (h : s.Kept) (hs : s.Synced) : s.disableStickyKeys.Kept ∧ s.disableStickyKeys.Synced := by
  let reset := s.resetStates (fun _ => true) fun xkb mod => unlock (unlatch xkb mod) mod
  have hf : reset.Filled := h.toFilled.resetStates disableStickyKeys_tells
  have hc : reset.Cleared := resetStates_cleared fun _ _ => rfl
  have hs : reset.Synced := (h.resetStates_synced_iff hs disableStickyKeys_tells).mpr fun _ _ _ => rfl
  exact ⟨⟨{ hf with }, fun _ => hc⟩, hs⟩

theorem pressModifier (h : s.Filled) (hs : s.Synced) (hk : key ∈ modifiers) :
    (s.pressModifier key).Filled ∧ (s.pressModifier key).Synced := by
  have hflags {state : KeyState} (he : s.keyState key = some state) : s.xkb.flags (keyToModifier key) = state.flags :=
    hs _ (h.keyState_eq_some_iff.mp he)
  have hi := hasIndex_keyToModifier key hk
  rw [StickyKeysFilter.pressModifier]
  split
  case h_1 he =>
    have hx (mod : Xkb.Modifier) : (s.xkb.setModifierLatched (keyToModifier key) true).flags mod =
        if mod = keyToModifier key then KeyState.latched.flags else s.xkb.flags mod := by
      rw [(Xkb.tells_latched true).flags hi]
      split
      case isTrue hm => rw [hm, hflags he]; rfl
      case isFalse => rfl
    exact ⟨(h.setFlags hk hx).emit, h.setFlags_synced hs hk hx⟩
  case h_2 he =>
    have hx (mod : Xkb.Modifier) :
        ((unlatch s.xkb (keyToModifier key)).setModifierLocked (keyToModifier key) true).flags mod =
          if mod = keyToModifier key then KeyState.locked.flags else s.xkb.flags mod := by
      rw [(Xkb.tells_locked true).flags hi, unlatch_tells.flags hi]
      split <;> rfl
    split
    case isTrue => exact ⟨(h.setFlags hk hx).emit, h.setFlags_synced hs hk hx⟩
    case isFalse => exact ⟨h, hs⟩
  case h_3 he =>
    have hx (mod : Xkb.Modifier) : (unlock s.xkb (keyToModifier key)).flags mod =
        if mod = keyToModifier key then KeyState.none.flags else s.xkb.flags mod := by
      rw [unlock_tells.flags hi]
      split
      case isTrue hm => rw [hm, hflags he]; rfl
      case isFalse => rfl
    split
    case isTrue => exact ⟨(h.setFlags hk hx).emit, h.setFlags_synced hs hk hx⟩
    case isFalse => exact ⟨h, hs⟩
  case h_4 => exact ⟨h, hs⟩

theorem installed_pressModifier : (s.pressModifier key).installed = s.installed := by
  rw [StickyKeysFilter.pressModifier]
  split
  case h_1 => rfl
  case h_2 => split <;> rfl
  case h_3 => split <;> rfl
  case h_4 => rfl

theorem keyboardKey (h : s.Kept) (hs : s.Synced) (hi : s.installed) (key : Key) (state : KeyboardKeyState) :
    (s.keyboardKey key state).Kept ∧ (s.keyboardKey key state).Synced := by
  rw [StickyKeysFilter.keyboardKey]
  split
  case isTrue hk =>
    split
    case isTrue => exact ⟨{ h with }, hs⟩
    case isFalse =>
      let pressed := { s with pressedModifiers := s.pressedModifiers.insert key }
      have ⟨hf, hs⟩ : (pressed.pressModifier key).Filled ∧ (pressed.pressModifier key).Synced :=
        pressModifier { h with } hs hk
      exact ⟨.of_installed hf (installed_pressModifier.trans hi), hs⟩
  case isFalse =>
    split
    case isTrue => exact ⟨h, hs⟩
    case isFalse =>
      dsimp only
      rw [synced_emit]
      split
      case isTrue =>
        have ⟨h, hs⟩ := h.disableStickyKeys hs
        have ⟨h, hs⟩ := h.unlatchUnlocked hs
        exact ⟨h.emit, hs⟩
      case isFalse =>
        have ⟨h, hs⟩ := h.unlatchUnlocked hs
        exact ⟨h.emit, hs⟩

theorem pointerButton (h : s.Kept) (hs : s.Synced) (state : PointerButtonState) :
    (s.pointerButton state).Kept ∧ (s.pointerButton state).Synced := by
  rw [StickyKeysFilter.pointerButton]
  split
  case isTrue =>
    have ⟨h, hs⟩ := h.unlatchUnlocked hs
    exact ⟨h.emit, hs⟩
  case isFalse => exact ⟨h, hs⟩

end Kept

-- A modifier is latched or locked for the keyboard as it is recorded, and none is while the filter is not installed.
def Unstuck (s : StickyKeysFilter) : Prop :=
  (∀ key ∈ modifiers,
    (s.xkb.latched (keyToModifier key) ↔ s.keyState key = some .latched) ∧
      (s.xkb.locked (keyToModifier key) ↔ s.keyState key = some .locked)) ∧
    (s.installed = false → ∀ mod, s.xkb.latched mod = false ∧ s.xkb.locked mod = false)

-- A configuration that disables sticky keys but lets modifiers be locked comes while none is locked.
def DisablesUnlocked (s : StickyKeysFilter) : Event → Prop
  | .configChanged name group =>
    name = "Keyboard" → group.readEntry "StickyKeys" false = false → group.readEntry "StickyKeysLatch" true →
      ∀ key ∈ modifiers, s.keyState key ≠ some .locked
  | _ => True

theorem Filled.synced_iff (h : s.Filled) :
    s.Synced ↔ ∀ key ∈ modifiers,
      (s.xkb.latched (keyToModifier key) ↔ s.keyState key = some .latched) ∧
        (s.xkb.locked (keyToModifier key) ↔ s.keyState key = some .locked) := by
  have hflags {key : Key} {state : KeyState} : s.xkb.flags (keyToModifier key) = state.flags ↔
      (s.xkb.latched (keyToModifier key) ↔ some state = some .latched) ∧
        (s.xkb.locked (keyToModifier key) ↔ some state = some .locked) := by
    rw [Xkb.flags, KeyState.flags, Prod.mk.injEq, Option.some_inj, Option.some_inj]
    exact and_congr (Bool.eq_iff_iff.trans (iff_congr .rfl decide_eq_true_iff))
      (Bool.eq_iff_iff.trans (iff_congr .rfl decide_eq_true_iff))
  constructor
  case mp =>
    intro hs key hk
    have ⟨state, hm⟩ := h.exists_mem hk
    rw [h.keyState_eq_some_iff.mpr hm]
    exact hflags.mp (hs _ hm)
  case mpr =>
    intro hs entry hm
    have hs := hs _ (h.mem_modifiers hm)
    rw [h.keyState_eq_some_iff.mpr hm] at hs
    exact hflags.mpr hs

theorem Kept.unstuck_iff (h : s.Kept) : s.Unstuck ↔ s.Synced := by
  rw [Unstuck, ← h.toFilled.synced_iff]
  refine ⟨And.left, fun hs => ⟨hs, fun hi mod => ?_⟩⟩
  have hf : s.xkb.flags mod = KeyState.none.flags := by
    by_cases hm : mod ∈ modifiers.map keyToModifier
    case pos =>
      have ⟨key, hk, he⟩ := List.mem_map.mp hm
      have ⟨state, hm⟩ := h.exists_mem hk
      have hn : state = .none := h.uninstalled hi _ hm
      exact he ▸ hn ▸ hs _ hm
    case neg => exact h.others mod hm
  exact Prod.mk.inj hf

theorem Filled.keyState_ne_locked_iff (h : s.Filled) :
    (∀ key ∈ modifiers, s.keyState key ≠ some .locked) ↔ ∀ entry ∈ s.keyStates, entry.2 ≠ .locked := by
  constructor
  case mp =>
    intro hl entry hm he
    exact hl _ (h.mem_modifiers hm) (h.keyState_eq_some_iff.mpr (he ▸ hm))
  case mpr => exact fun hl key _ he => hl _ (h.keyState_eq_some_iff.mp he) rfl

theorem step_iff {event : Event} (h : s.Kept ∧ s.Synced) (he : s.step event = some s') :
    (s'.Unstuck ↔ s.DisablesUnlocked event) ∧ (s.DisablesUnlocked event → s'.Kept ∧ s'.Synced) := by
  have hkept (h : s'.Kept ∧ s'.Synced) (ht : s.DisablesUnlocked event) :
      (s'.Unstuck ↔ s.DisablesUnlocked event) ∧ (s.DisablesUnlocked event → s'.Kept ∧ s'.Synced) :=
    ⟨iff_of_true (h.1.unstuck_iff.mpr h.2) ht, fun _ => h⟩
  cases event with
  | key key state =>
    cases he
    refine hkept ?_ trivial
    split
    case isTrue hi => exact h.1.keyboardKey h.2 hi key state
    case isFalse => exact h
  | pointerButton state =>
    cases he
    refine hkept ?_ trivial
    split
    case isTrue => exact h.1.pointerButton h.2 state
    case isFalse => exact h
  | configChanged name group =>
    cases he
    split
    case isFalse hn =>
      rw [if_neg hn] at hkept
      exact hkept h fun hn' => (hn hn').elim
    case isTrue hn =>
      have hk : (s.loadConfig group).Kept := h.1.loadConfig
      have hs : (s.loadConfig group).Synced ↔ s.DisablesUnlocked (.configChanged name group) := by
        rw [DisablesUnlocked, forall_prop_of_true hn, h.1.keyState_ne_locked_iff]
        exact h.1.loadConfig_synced_iff h.2
      exact ⟨hk.unstuck_iff.trans hs, fun hd => ⟨hk, hs.mpr hd⟩⟩

theorem always_unstuck_iff (group : KConfigGroup) (events : List Event) :
    Machine.Always step Unstuck (construct group) events ↔
      Machine.EachStep step DisablesUnlocked (construct group) events :=
  Machine.Always.iff_eachStep ⟨kept_construct, synced_construct⟩ (fun h => h.1.unstuck_iff.mpr h.2) step_iff

-- Shift is locked, and then the configuration disables sticky keys.
theorem not_always_unstuck :
    ¬Machine.Always step Unstuck (construct ⟨fun key => if key = "StickyKeys" then some true else none⟩)
      [.key .keyShift .pressed, .key .keyShift .released, .key .keyShift .pressed, .key .keyShift .released,
        .configChanged "Keyboard" {}] := by
  intro h
  have hs := ((((h.2 _ rfl).2 _ rfl).2 _ rfl).2 _ rfl).2 _ rfl
  exact absurd (hs.1 .keyShift (by decide)) (by decide)

end StickyKeysFilter
end KWin
