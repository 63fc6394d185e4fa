import Mathlib.Algebra.Order.Group.Int
import Mathlib.Algebra.Order.Monoid.Prod
import PlasmaModel.Lib.Folds
import PlasmaModel.Outputs.Generate
import PlasmaModel.Outputs.Theorems.StoreConfig

namespace KWin

open RunningMax

def rectOf (pos : QPoint) (size : SizeF) : RectF :=
  ⟨pos.x, pos.y, pos.x + size.width, pos.y + size.height⟩

namespace OutputConfiguration

variable (config : OutputConfiguration)

def exactSize (output : ConnectedOutput) : SizeF :=
  let changeSet := config.changeSet output.name
  let size := (changeSet.transform.getD output.transform).mapSize
    ⟨(config.modeSize output).width, (config.modeSize output).height⟩
  let scale := (changeSet.scale <|> changeSet.scaleSetting).getD output.scale
  ⟨size.width / scale, size.height / scale⟩

def geometry (output : ConnectedOutput) : RectF :=
  rectOf (config.position output) (config.exactSize output)

def Apart (outputs : List ConnectedOutput) : Prop :=
  outputs.Pairwise fun a b =>
    config.isEnabled a → config.isEnabled b → ¬(config.geometry a).intersects (config.geometry b)

end OutputConfiguration

namespace OutputConfigurationStore

-- Points that are farther to the right are greater, and of those above each other the upper one.
abbrev Corner := ℤ ×ₗ ℤᵒᵈ

def corner (point : QPoint) : Corner :=
  toLex (point.x, OrderDual.toDual point.y)

variable (defaults : OutputDefaults) (store : OutputConfigurationStore) (outputs : List ConnectedOutput)
  (isLidClosed : Bool) (setup : Setup)

def sizeFor (output : ConnectedOutput) : SizeF :=
  let size := store.modeSizeFor defaults outputs output
  let scale := store.scaleSettingFor defaults outputs output
  ⟨size.width / scale, size.height / scale⟩

-- What an output does to the place of the next new one.
def cornerEffect (output : ConnectedOutput) : Corner ⊕ Corner :=
  let width := (store.sizeFor defaults outputs output).width
  match store.stateIn setup outputs output with
  | some state =>
    if state.enabled then .inl (corner ⟨⌈state.position.x + width⌉, state.position.y⟩) else .inr 0
  | none       => .inr (if enable outputs isLidClosed output then toLex (max ⌈width⌉ 0, 0) else 0)

def placedAfter (l : List ConnectedOutput) : Placed :=
  l.foldl (store.place defaults outputs isLidClosed (some setup)) {}

variable {defaults store outputs isLidClosed setup} {placed : Placed} {output : ConnectedOutput}

theorem corner_lt {p q : QPoint} : corner p < corner q ↔ p.x < q.x ∨ (p.x = q.x ∧ q.y < p.y) := by
  rw [corner, corner, Prod.Lex.toLex_lt_toLex]
  exact Iff.rfl

theorem corner_add (p : QPoint) (d : ℤ) : corner p + toLex (d, 0) = corner ⟨p.x + d, p.y⟩ :=
  congrArg (fun y => toLex (p.x + d, y)) (add_zero (OrderDual.toDual p.y))

-- The comparison in the loop is that of corners.
theorem corner_ite {b : Bool} {p q : QPoint} :
    corner (if b && (p.x > q.x || p.x == q.x && p.y < q.y) then p else q) =
      if b then max (corner p) (corner q) else corner q := by
  cases b
  case false => rfl
  case true =>
    have hlt : ((true && (decide (p.x > q.x) || p.x == q.x && decide (p.y < q.y))) = true) ↔ corner q < corner p := by
      simp only [Bool.true_and, Bool.or_eq_true, Bool.and_eq_true, decide_eq_true_iff, beq_iff_eq, corner_lt]
      exact or_congr_right (and_congr_left' eq_comm)
    rw [if_pos rfl]
    split
    case isTrue h => exact (max_eq_left (hlt.mp h).le).symm
    case isFalse h => exact (max_eq_right (not_lt.mp (mt hlt.mpr h))).symm

theorem place_corner_of_some {state : SetupState} (h : store.stateIn setup outputs output = some state) :
    corner (store.place defaults outputs isLidClosed (some setup) placed output).rightMostPosition =
      if state.enabled then
        max (corner ⟨⌈state.position.x + (store.sizeFor defaults outputs output).width⌉, state.position.y⟩)
          (corner placed.rightMostPosition)
      else
        corner placed.rightMostPosition := by
  rw [← corner_ite]
  simp only [place, Option.bind_some, h, Option.elim_some, sizeFor]
  rfl

theorem place_corner_of_none (h : store.stateIn setup outputs output = none) :
    corner (store.place defaults outputs isLidClosed (some setup) placed output).rightMostPosition =
      if enable outputs isLidClosed output then
        max (corner ⟨placed.rightMostPosition.x + ⌈(store.sizeFor defaults outputs output).width⌉,
          placed.rightMostPosition.y⟩) (corner placed.rightMostPosition)
      else
        corner placed.rightMostPosition := by
  rw [← corner_ite, ← Int.ceil_intCast_add]
  simp only [place, Option.bind_some, h, Option.elim_none, sizeFor]
  rfl

theorem max_corner_add (p : QPoint) (d : ℤ) :
    max (corner ⟨p.x + d, p.y⟩) (corner p) = corner p + toLex (max d 0, 0) := by
  rw [corner_add]
  cases le_total d 0 with
  | inl h =>
    have hle : corner ⟨p.x + d, p.y⟩ ≤ corner p := not_lt.mp fun hlt => by
      rcases corner_lt.mp hlt with hx | ⟨_, hy⟩
      · simp only at hx
        omega
      · exact lt_irrefl _ hy
    rw [max_eq_right hle, max_eq_right h, add_zero]
  | inr h =>
    have hle : corner p ≤ corner ⟨p.x + d, p.y⟩ := not_lt.mp fun hlt => by
      rcases corner_lt.mp hlt with hx | ⟨_, hy⟩
      · simp only at hx
        omega
      · exact lt_irrefl _ hy
    rw [max_eq_left hle, max_eq_left h]

theorem place_corner : corner (store.place defaults outputs isLidClosed (some setup) placed output).rightMostPosition =
    step (store.cornerEffect defaults outputs isLidClosed setup) (corner placed.rightMostPosition) output := by
  cases h : store.stateIn setup outputs output with
  | some state =>
    rw [place_corner_of_some h]
    simp only [step, cornerEffect, h]
    cases state.enabled with
    | false => exact (add_zero _).symm
    | true => rfl
  | none =>
    rw [place_corner_of_none h]
    simp only [step, cornerEffect, h]
    cases enable outputs isLidClosed output with
    | false => exact (add_zero _).symm
    | true => exact max_corner_add ..

variable (defaults store outputs isLidClosed setup)

-- What is promised of the setups in the store.
structure Sound : Prop where
  priorities : setup.outputs.Pairwise fun s t => s.priority ≠ t.priority
  apart      : outputs.Pairwise fun a b => ∀ s t, store.stateIn setup outputs a = some s →
    store.stateIn setup outputs b = some t → s.enabled → t.enabled →
      ¬(rectOf s.position (store.sizeFor defaults outputs a)).intersects
        (rectOf t.position (store.sizeFor defaults outputs b))

structure Extends (config : OutputConfiguration) : Prop where
  keeps      : ∀ output ∈ outputs, ∀ s, store.stateIn setup outputs output = some s →
    config.position output = s.position ∧ config.isEnabled output = s.enabled ∧
      (config.changeSet output.name).priority = some s.priority
  apart      : config.Apart outputs
  priorities : outputs.Pairwise fun a b => (config.changeSet a.name).priority ≠ (config.changeSet b.name).priority

variable {defaults store outputs isLidClosed setup}

theorem x_le {p q : QPoint} (h : corner p ≤ corner q) : p.x ≤ q.x := by
  have hlt := mt corner_lt.mpr (not_lt.mpr h)
  exact not_lt.mp fun hx => hlt (.inl hx)

theorem zero_le_toLex (d : ℤ) : (0 : Corner) ≤ toLex (max d 0, 0) := by
  have hle : (toLex (0, 0) : Corner) ≤ toLex (max d 0, 0) :=
    Prod.Lex.toLex_le_toLex.mpr ((le_max_right d 0).lt_or_eq.imp id fun h => ⟨h, le_rfl⟩)
  exact hle

-- What comes behind an output has a greater priority, and is to the right of it, unless it is in the setup.

variable (defaults store outputs isLidClosed setup output) in
theorem place_corner_le (before mid : List ConnectedOutput) :
    corner (store.place defaults outputs isLidClosed (some setup)
      (store.placedAfter defaults outputs isLidClosed setup before) output).rightMostPosition ≤
    corner (store.placedAfter defaults outputs isLidClosed setup (before ++ output :: mid)).rightMostPosition := by
  rw [placedAfter, placedAfter, List.foldl_append, List.foldl_cons]
  rw [← List.foldl_hom (fun placed : Placed => corner placed.rightMostPosition) fun _ _ => place_corner.symm]
  refine le_foldl fun other _ d hd => ?_
  unfold cornerEffect at hd
  dsimp only at hd
  split at hd
  case h_1 => split at hd <;> cases hd; exact le_rfl
  case h_2 =>
    cases hd
    split
    case isTrue => exact zero_le_toLex _
    case isFalse => exact le_rfl

variable (defaults) in
theorem right_le (before mid : List ConnectedOutput)
    (he : ((store.stateIn setup outputs output).elim (enable outputs isLidClosed output) (·.enabled)) = true) :
    ((store.stateIn setup outputs output).elim
      (store.placedAfter defaults outputs isLidClosed setup before).rightMostPosition (·.position)).x +
        (store.sizeFor defaults outputs output).width ≤
      (store.placedAfter defaults outputs isLidClosed setup (before ++ output :: mid)).rightMostPosition.x := by
  have hle := place_corner_le defaults store outputs isLidClosed setup output before mid
  cases h : store.stateIn setup outputs output with
  | some s =>
    rw [h, Option.elim_some] at he
    rw [place_corner_of_some h, if_pos he] at hle
    have hx := x_le ((le_max_left ..).trans hle)
    exact (Int.le_ceil _).trans (Int.cast_le.mpr hx)
  | none =>
    rw [h, Option.elim_none] at he
    rw [place_corner_of_none h, if_pos he] at hle
    have hx := x_le ((le_max_left ..).trans hle)
    rw [← Int.ceil_intCast_add] at hx
    exact (Int.le_ceil _).trans (Int.cast_le.mpr hx)

section

variable {before after mid rest : List ConnectedOutput} {other : ConnectedOutput} {s t : SetupState}
  {config : OutputConfiguration} {placed : Placed}

end

def sameMode : OutputDefaults where
  custom definition := ⟨definition.size, definition.refreshRate, definition.flags⟩
  chooseMode output := output.modeline
  chooseScale _ _   := 1

def screen (name hash : String) : ConnectedOutput :=
  { (default : BackendOutput) with
    name
    edidHash         := hash
    isEnabled        := true
    modeline         := ⟨⟨1920, 1080⟩, 60000, 0⟩
    isInternal       := false
    modes            := []
    scale            := 1
    panelOrientation := .normal }

def known : OutputConfigurationStore where
  outputs := [{ edidHash := "a", connectorName := "DP-1", uuid := some "1" }]
  setups  := [{ outputs := [{ outputIndex := 0, position := ⟨0, 0⟩, enabled := true, priority := 0 }] }]

def registered (outputs : List ConnectedOutput) : OutputConfigurationStore :=
  known.registerOutputs toString (outputs.map (·.toBackendOutput))

def first : ConnectedOutput :=
  screen "DP-1" "a"

def second : ConnectedOutput :=
  screen "DP-2" "b"

end OutputConfigurationStore
end KWin
