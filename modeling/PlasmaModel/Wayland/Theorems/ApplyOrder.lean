import Mathlib.Order.WithBot
import PlasmaModel.Wayland.Theorems.Forest

namespace KWin.SurfaceForest

open Forest Relation WeakOrder

variable {forest : SurfaceForest} {x y z parent : SurfaceId} {a b c : SurfacePointer} {entries : List SurfacePointer}

def parentSurface (forest : SurfaceForest) (x : SurfaceId) : Option SurfaceId :=
  (forest.subSurface x).bind id

theorem parentSurface_eq_some : forest.parentSurface x = some parent ↔ forest.subSurface x = some (some parent) := by
  simp [parentSurface, Option.bind_eq_some_iff]

abbrev Descendant (forest : SurfaceForest) (x y : SurfaceId) : Prop :=
  Above forest.parentSurface x y

theorem descendant_iff : forest.Descendant x y ↔
    ∃ parent, forest.subSurface x = some (some parent) ∧ (parent = y ∨ forest.Descendant parent y) := by
  simp only [← parentSurface_eq_some]
  constructor
  case mp =>
    intro h
    cases TransGen.head'_iff.mp h with
    | intro parent h =>
      have ⟨hp, h⟩ := h
      exact ⟨parent, hp, (reflTransGen_iff_eq_or_transGen.mp h).imp Eq.symm id⟩
  case mpr =>
    intro ⟨parent, hp, h⟩
    cases h with
    | inl h => exact h ▸ .single hp
    | inr h => exact .head hp h

theorem isAncestor_eq_false (ancestor : SurfaceId)
    (h : forest.subSurface x = none ∨ forest.subSurface x = some none) : forest.isAncestor x ancestor = false := by
  rw [isAncestor]
  split <;> simp_all

theorem isAncestor_parent (ancestor : SurfaceId) (h : forest.subSurface x = some (some parent)) :
    forest.isAncestor x ancestor = if parent = ancestor then true else forest.isAncestor parent ancestor := by
  rw [isAncestor]
  split <;> simp_all

theorem isAncestor_iff (ancestor : SurfaceId) : forest.isAncestor x ancestor = true ↔ forest.Descendant x ancestor := by
  rw [descendant_iff]
  induction x using isAncestor.induct forest ancestor with
  | case1 x h => simp [isAncestor_eq_false ancestor (.inl h), h]
  | case2 x h => simp [isAncestor_eq_false ancestor (.inr h), h]
  | case3 x h => simp [isAncestor_parent ancestor h, h]
  | case4 x parent h hne ih => simp [isAncestor_parent ancestor h, h, hne, ih, ← descendant_iff]

theorem Descendant.depth_lt (h : forest.Descendant x y) : forest.depth y < forest.depth x := by
  induction h with
  | single h => exact forest.depth_lt _ _ (parentSurface_eq_some.mp h)
  | tail _ h ih => exact Nat.lt_trans (forest.depth_lt _ _ (parentSurface_eq_some.mp h)) ih

theorem mainSurface_parent (h : forest.subSurface x = some (some parent)) :
    forest.mainSurface x = forest.mainSurface parent := by
  rw [mainSurface, mainSurface, h]
  dsimp only
  rw [subSurfaceMainSurface]
  split <;> simp_all

theorem Descendant.mainSurface_eq (h : forest.Descendant x y) : forest.mainSurface x = forest.mainSurface y := by
  induction h with
  | single h => exact mainSurface_parent (parentSurface_eq_some.mp h)
  | tail _ h ih => exact ih.trans (mainSurface_parent (parentSurface_eq_some.mp h))

-- What is above a surface is one above the other.
theorem Descendant.line (hy : forest.Descendant x y) (hz : forest.Descendant x z) :
    y = z ∨ forest.Descendant y z ∨ forest.Descendant z y := by
  have hunique : Relator.RightUnique fun a b => forest.parentSurface a = some b :=
    fun _ _ _ hb hc => Option.some.inj (hb.symm.trans hc)
  have hline := ReflTransGen.total_of_right_unique hunique hy.to_reflTransGen hz.to_reflTransGen
  simp only [reflTransGen_iff_eq_or_transGen] at hline
  cases hline with
  | inl h => exact h.imp Eq.symm .inl
  | inr h => exact h.imp id .inr

-- The surface of the first entry exists and is below that of the second one.
def Below (forest : SurfaceForest) : SurfacePointer → SurfacePointer → Prop
  | some x, some y => forest.Descendant x y
  | _, _ => False

-- What has to be applied first.
def Before (forest : SurfaceForest) : SurfacePointer → SurfacePointer → Prop
  | some _, none => True
  | a, b => forest.Below a b

def key (forest : SurfaceForest) : SurfacePointer → WithTop Nat
  | none => ⊤
  | some x => some (SurfacePointer.address (forest.mainSurface x))

theorem classes (forest : SurfaceForest) : Classes forest.Below forest.key where
  irrefl
    | none, h => h
    | some _, h => Nat.lt_irrefl _ (Descendant.depth_lt h)
  trans {a b c} hab hbc :=
    match a, b, c, hab, hbc with
    | some _, some _, some _, hab, hbc => TransGen.trans hab hbc
  key_eq {a b} hab :=
    match a, b, hab with
    | some _, some _, hab => congrArg (some ∘ SurfacePointer.address) (Descendant.mainSurface_eq hab)
  line {a b c} hab hac :=
    match a, b, c, hab, hac with
    | some _, some _, some _, hab, hac => (Descendant.line hab hac).imp (congrArg some) id

theorem less_iff : forest.less a b = true ↔ ByKey forest.Below forest.key a b := by
  cases a with
  | none => simp [less, ByKey, Below, key]
  | some x =>
    cases b with
    | none =>
      have hlt : forest.key (some x) < forest.key none := WithTop.coe_lt_top _
      simp [less, ByKey, hlt]
    | some y =>
      have hkey : forest.key (some x) < forest.key (some y) ↔
          SurfacePointer.address (forest.mainSurface x) < SurfacePointer.address (forest.mainSurface y) :=
        WithTop.coe_lt_coe
      rw [less, ByKey, hkey, Below]
      split
      case isTrue hxy => exact iff_of_true rfl (.inl ((isAncestor_iff y).mp hxy))
      case isFalse hxy =>
        rw [isAncestor_iff] at hxy
        split
        case isTrue hyx =>
          have heq := Descendant.mainSurface_eq ((isAncestor_iff x).mp hyx)
          simp [hxy, heq]
        case isFalse => simp [hxy]

theorem less_of_before (h : forest.Before a b) : forest.less a b = true := by
  cases a with
  | none => cases h
  | some x =>
    cases b with
    | none => rfl
    | some y => exact less_iff.mpr (.inl h)

abbrev Less (forest : SurfaceForest) (a b : SurfacePointer) : Prop :=
  forest.less a b = true

-- What the standard library says of its sort.
def Sorts (sort : (SurfacePointer → SurfacePointer → Bool) → List SurfacePointer → List SurfacePointer) : Prop :=
  ∀ less entries, StrictWeakOrdering (fun a b => less a b = true) entries →
    (sort less entries).Perm entries ∧ Sorted (fun a b => less a b = true) (sort less entries)

structure Ordered (forest : SurfaceForest) (entries : List SurfacePointer) : Prop where
  weak   : StrictWeakOrdering forest.Less entries
  before : ∀ a ∈ entries, ∀ b ∈ entries, forest.Before a b → forest.Less a b
  sorted : ∀ sort, Sorts sort → Sorted forest.Before (sort forest.less entries)

-- A surface with a descendant in the list is above or below all others of its tree that are in the list.
def Stratified (forest : SurfaceForest) (entries : List SurfacePointer) : Prop :=
  ∀ x y z, some x ∈ entries → some y ∈ entries → some z ∈ entries → forest.Descendant x z →
    forest.mainSurface y = forest.mainSurface z → y = z ∨ forest.Descendant y z ∨ forest.Descendant z y

theorem key_some_inj : forest.key (some x) = forest.key (some y) ↔ forest.mainSurface x = forest.mainSurface y := by
  rw [key, key, WithTop.some_eq_coe, WithTop.some_eq_coe, WithTop.coe_inj]
  cases forest.mainSurface x <;> cases forest.mainSurface y <;> simp [SurfacePointer.address]

theorem weak_iff : StrictWeakOrdering forest.Less entries ↔ forest.Stratified entries := by
  have hless : forest.Less = ByKey forest.Below forest.key := funext₂ fun _ _ => propext less_iff
  rw [hless, forest.classes.strictWeakOrdering_iff]
  constructor
  case mp =>
    intro h x y z hx hy hz hxz hmain
    have hline := h _ hx _ hy _ hz hxz (key_some_inj.mpr hmain)
    exact hline.imp Option.some.inj id
  case mpr =>
    intro h a ha b hb c hc hac hkey
    match a, b, c, hac with
    | some x, some y, some z, hac => exact (h x y z ha hb hc hac (key_some_inj.mp hkey)).imp (congrArg some) id
    | some x, none, some z, hac => cases hkey

theorem ordered_iff (forest : SurfaceForest) (entries : List SurfacePointer) :
    forest.Ordered entries ↔ forest.Stratified entries := by
  rw [← weak_iff]
  constructor
  case mp => exact Ordered.weak
  case mpr =>
    intro h
    exact {
      weak   := h
      before := fun _ _ _ _ => less_of_before
      sorted sort hs := (hs _ _ h).2.of_less fun _ _ => less_of_before }

-- The children of a surface, and a child of the first one.
def cousins : SurfaceForest where
  subSurface x    := if x = 0 then none else if x = 3 then some (some 1) else some (some 0)
  depth x         := if x = 0 then 0 else if x = 3 then 2 else 1
  depth_lt x p hp := by grind

-- The second child can be exchanged with the others, but these cannot be exchanged with each other.
theorem not_always_ordered : ¬∀ forest entries, Ordered forest entries := by
  intro h
  have hweak := (h cousins [some 1, some 2, some 3]).weak
  have h12 : Incomparable cousins.Less (some 1) (some 2) := by
    simp [Incomparable, less, isAncestor, mainSurface, subSurfaceMainSurface, cousins]
  have h23 : Incomparable cousins.Less (some 2) (some 3) := by
    simp [Incomparable, less, isAncestor, mainSurface, subSurfaceMainSurface, cousins]
  have h13 := hweak.incomparable_trans (some 1) (by simp) (some 2) (by simp) (some 3) (by simp) h12 h23
  exact h13.2 (less_of_before (descendant_iff.mpr ⟨1, rfl, .inl rfl⟩))

end KWin.SurfaceForest
