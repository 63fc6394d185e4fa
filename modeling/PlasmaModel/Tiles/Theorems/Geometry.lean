import Mathlib.Data.List.Chain
import Mathlib.Tactic.NormNum
import PlasmaModel.Tiles.CustomTile

namespace KWin
namespace RectF

theorem edge_injective {r s : RectF} (h : ∀ edge, r.edge edge = s.edge edge) : r = s := by
  have hl := h .left
  have ht := h .top
  have hr := h .right
  have hb := h .bottom
  cases r
  cases s
  simp_all [edge]

theorem Contains.trans {r s t : RectF} (h₁ : r.Contains s) (h₂ : s.Contains t) : r.Contains t := by
  have ⟨hl₁, ht₁, hr₁, hb₁⟩ := h₁
  have ⟨hl₂, ht₂, hr₂, hb₂⟩ := h₂
  exact ⟨hl₁.trans hl₂, ht₁.trans ht₂, hr₂.trans hr₁, hb₂.trans hb₁⟩

theorem edge_setEdge (r : RectF) (e e' : Edge) (v : ℚ) :
    (r.setEdge e v).edge e' = if e' = e then v else r.edge e' := by
  cases e <;> cases e' <;> rfl

@[simp] theorem edge_setEdge_self (r : RectF) (e : Edge) (v : ℚ) : (r.setEdge e v).edge e = v := by
  rw [edge_setEdge, if_pos rfl]

theorem edge_setEdge_ne {e e' : Edge} (h : e' ≠ e) (r : RectF) (v : ℚ) : (r.setEdge e v).edge e' = r.edge e' := by
  rw [edge_setEdge, if_neg h]

theorem minimumSize_pos : 0 < minimumSize := by
  norm_num [minimumSize]

theorem MinimumSize.nonempty {r : RectF} (h : r.MinimumSize) : r.isEmpty = false := by
  have hw := sub_pos.mp (minimumSize_pos.trans_le h.width)
  have hh := sub_pos.mp (minimumSize_pos.trans_le h.height)
  rw [isEmpty, decide_eq_false hw.not_ge, decide_eq_false hh.not_ge]
  rfl

@[simp] theorem setWidth_width (r : RectF) : r.setWidth r.width = r := by
  simp [setWidth, width]

@[simp] theorem setHeight_height (r : RectF) : r.setHeight r.height = r := by
  simp [setHeight, height]

theorem MinimumSize.constrained {r : RectF} (h : r.MinimumSize) : Tiles.constrained r = r := by
  rw [Tiles.constrained, max_eq_left h.width, setWidth_width, max_eq_left h.height, setHeight_height]

theorem Contains.nonempty {r s : RectF} (h : r.Contains s) (hs : s.isEmpty = false) : r.isEmpty = false := by
  have ⟨hl, ht, hr, hb⟩ := h
  simp only [isEmpty, Bool.or_eq_false_iff, decide_eq_false_iff_not, not_le] at hs ⊢
  exact ⟨hl.trans_lt (hs.left.trans_le hr), ht.trans_lt (hs.right.trans_le hb)⟩

theorem Contains.intersected {r s : RectF} (h : r.Contains s) (hs : s.isEmpty = false) : s.intersected r = s := by
  have ⟨hl, ht, hr, hb⟩ := h
  simp [RectF.intersected, hs, h.nonempty hs, max_eq_left hl, max_eq_left ht, min_eq_left hr, min_eq_left hb]

variable {geom c : RectF} {cs : List RectF} {start : Edge} {dir : LayoutDirection}

-- What is left after the first tile is divided into the other ones.
theorem Divided.tail (h : geom.Divided start (c :: cs)) :
    (geom.setEdge start (c.edge start.opposite)).Divided start cs where
  across d hd := by
    rw [edge_setEdge_ne (by cases start <;> simp [Edge.across])]
    exact h.across d (List.mem_cons_of_mem _ hd)
  opposite d hd := by
    rw [edge_setEdge_ne (by cases start <;> simp [Edge.across, Edge.opposite])]
    exact h.opposite d (List.mem_cons_of_mem _ hd)
  first d hd := by
    rw [edge_setEdge_self]
    exact (List.isChain_cons.mp h.touching |>.left d hd).symm
  last d hd := by
    rw [edge_setEdge_ne (by cases start <;> simp [Edge.opposite])]
    exact h.last d (by rw [List.getLast?_cons, Option.mem_def.mp hd]; rfl)
  touching := List.isChain_cons.mp h.touching |>.right

theorem Divided.between (h : geom.Divided start cs) (hm : ∀ c ∈ cs, c.edge start ≤ c.edge start.opposite) (hc : c ∈ cs) :
    geom.edge start ≤ c.edge start ∧ c.edge start.opposite ≤ geom.edge start.opposite := by
  have hopp : start.opposite ≠ start := by cases start <;> simp [Edge.opposite]
  induction cs generalizing geom c
  case nil => cases hc
  case cons d ds hi =>
    have hi {c} := @hi (geom.setEdge start (d.edge start.opposite)) c h.tail fun c hc => hm c (List.mem_cons_of_mem _ hc)
    have hd := hm d List.mem_cons_self
    have hfirst := h.first d rfl
    simp only [edge_setEdge_self, edge_setEdge_ne hopp] at hi
    cases List.mem_cons.mp hc
    case inr hc =>
      have ⟨hs, hf⟩ := hi hc
      exact ⟨hfirst.symm.le.trans (hd.trans hs), hf⟩
    case inl hc =>
      subst hc
      apply And.intro hfirst.symm.le
      cases ds
      case nil => exact (h.last c rfl).le
      case cons e es _ =>
        have ⟨hs, hf⟩ := hi (c := e) List.mem_cons_self
        exact hs.trans ((hm e (List.mem_cons_of_mem _ List.mem_cons_self)).trans hf)

theorem Partitioned.contains (h : geom.Partitioned cs dir) (hm : ∀ c ∈ cs, c.MinimumSize) (hc : c ∈ cs) :
    geom.Contains c := by
  have hw (c) (hc : c ∈ cs) : c.left ≤ c.right := sub_nonneg.mp (minimumSize_pos.le.trans (hm c hc).width)
  have hh (c) (hc : c ∈ cs) : c.top ≤ c.bottom := sub_nonneg.mp (minimumSize_pos.le.trans (hm c hc).height)
  cases dir
  case floating => exact h c hc
  case horizontal =>
    have ⟨hl, hr⟩ := Divided.between h hw hc
    exact ⟨hl, (h.across c hc).symm.le, hr, (h.opposite c hc).le⟩
  case vertical =>
    have ⟨ht, hb⟩ := Divided.between h hh hc
    exact ⟨(h.across c hc).symm.le, ht, (h.opposite c hc).le, hb⟩

end RectF

namespace Tiles

variable {Window : Type}

theorem screen_eq : screen = { left := 0, top := 0, right := 1, bottom := 1 } := by
  norm_num [screen, RectF.ofSize]

theorem screen_minimumSize : screen.MinimumSize := by
  rw [screen_eq]
  constructor <;> norm_num [RectF.width, RectF.height, minimumSize]

theorem fitted_eq {geom : RectF} (hm : geom.MinimumSize) (hs : screen.Contains geom) : fitted geom = some geom := by
  have ⟨_, _, hr, hb⟩ := screen_eq ▸ hs
  have hr : ¬1 < geom.right := hr.not_gt
  have hb : ¬1 < geom.bottom := hb.not_gt
  simp only [fitted, hs.intersected hm.nonempty, hm.constrained]
  rw [decide_eq_false hr, decide_eq_false hb]
  rfl

end Tiles
end KWin

namespace KWin.Tiles

open RoseTree (node)

variable {Window : Type} {t n : Tiles Window} {p : List Nat} {geom : RectF} {dir : LayoutDirection} {i : Nat}

theorem relativeGeometry_of_subtree? (h : t.subtree? p = some n) : t.relativeGeometry p = n.value.relativeGeometry := by
  rw [relativeGeometry, RoseTree.value?, h]
  rfl

theorem layoutDirection_of_subtree? (h : t.subtree? p = some n) : t.layoutDirection p = n.value.layoutDirection := by
  rw [layoutDirection, RoseTree.value?, h]
  rfl

theorem geometryLock_of_subtree? (h : t.subtree? p = some n) : t.geometryLock p = n.value.geometryLock := by
  rw [geometryLock, RoseTree.value?, h]
  rfl

theorem childCount_of_subtree? (h : t.subtree? p = some n) : t.childCount p = n.children.length := by
  rw [RoseTree.childCount, h]
  rfl

-- What is left to do with a tile whose edges have been moved.
def settle (set : Tiles Window → List Nat → RectF → Option (Tiles Window)) (t : Tiles Window) (p : List Nat)
    (finalGeom : RectF) : Option (Tiles Window) := do
  let t ← resizeChildren set p finalGeom (List.range (t.childCount p)) t
  let t ← resizeFirst set p finalGeom t
  let t ← resizeLast set p finalGeom t
  some ((t.setTileGeometry p finalGeom).setGeometryLock p false)

theorem setRelativeGeometry_eq (fuel : Nat) (h : t.relativeGeometry p ≠ geom) :
    setRelativeGeometry (fuel + 1) t p geom =
      (fitted geom).elim (some t) fun finalGeom =>
        let set := setRelativeGeometry fuel
        if t.parentLayoutDirection p = some .floating then
          settle set t p (geom.intersected (t.relativeGeometry p.tail))
        else if t.geometryLock p ∨ p = [] then
          settle set t p finalGeom
        else
          (moveEdges set p [.left, .top, .right, .bottom] (t.setGeometryLock p true) finalGeom).bind fun (t, moved) =>
            moved.elim (some t) (settle set t p) := by
  rw [setRelativeGeometry, if_neg h]
  cases fitted geom
  case none => rfl
  case some finalGeom =>
    by_cases hf : t.parentLayoutDirection p = some .floating
    case pos =>
      dsimp only [Option.elim_some]
      rw [if_pos hf, if_pos hf, if_neg (by simp [hf])]
      rfl
    case neg =>
      dsimp only [Option.elim_some]
      rw [if_neg hf, if_neg hf]
      by_cases hl : t.geometryLock p = true ∨ p = []
      case pos =>
        rw [if_pos hl, if_neg (by simp; grind)]
        rfl
      case neg =>
        rw [if_neg hl, if_pos (by simp; grind)]
        refine congrArg (Option.bind _) (funext fun ⟨t, moved⟩ => ?_)
        cases moved <;> rfl

theorem settle_leaf (set : Tiles Window → List Nat → RectF → Option (Tiles Window)) (h : t.childCount p = 0) :
    settle set t p geom = some ((t.setTileGeometry p geom).setGeometryLock p false) := by
  have hf : resizeFirst set p geom t = some t := if_pos h
  have hl : resizeLast set p geom t = some t := if_pos (by simp [h])
  simp only [settle, h, List.range_zero, resizeChildren, bind, Option.bind_some, hf, hl]

-- A new tile without children, once it has its geometry.
def created (geom : RectF) (dir : LayoutDirection) : Tiles Window :=
  .node { relativeGeometry := geom, layoutDirection := dir, geometryLock := false } []

def insertChild (position : Nat) (child : Tiles Window) (n : Tiles Window) : Tiles Window :=
  .node n.value (n.children.insertIdx position child)

-- A tile that is not in its place yet pushes no other tile.
theorem setRelativeGeometry_new (fuel : Nat) (hn : t.subtree? p = some n) (hi : n.children[i]? = some (.node {} []))
    (hm : geom.MinimumSize) (hs : screen.Contains geom)
    (hf : n.value.layoutDirection = .floating → n.value.relativeGeometry.Contains geom) :
    setRelativeGeometry (fuel + 1) t (i :: p) geom =
      some ((t.setTileGeometry (i :: p) geom).setGeometryLock (i :: p) false) := by
  have hi : t.subtree? (i :: p) = some (.node {} []) := by rw [RoseTree.subtree?, hn]; exact hi
  have hne : t.relativeGeometry (i :: p) ≠ geom := fun h => by
    rw [relativeGeometry_of_subtree? hi] at h
    have := hm.nonempty
    rw [← h] at this
    cases this
  have hcount : t.childCount (i :: p) = 0 := childCount_of_subtree? hi
  rw [setRelativeGeometry_eq fuel hne, fitted_eq hm hs]
  dsimp only [Option.elim_some]
  split
  case isTrue h =>
    rw [parentLayoutDirection, layoutDirection_of_subtree? hn] at h
    rw [List.tail_cons, relativeGeometry_of_subtree? hn, (hf (Option.some.inj h)).intersected hm.nonempty,
      settle_leaf _ hcount]
  case isFalse =>
    rw [if_pos (.inl (geometryLock_of_subtree? hi)), settle_leaf _ hcount]

theorem createChildAt_eq (fuel : Nat) (position : Nat) (hn : t.subtree? p = some n) (hm : geom.MinimumSize)
    (hs : screen.Contains geom) (hf : n.value.layoutDirection = .floating → n.value.relativeGeometry.Contains geom) :
    createChildAt (fuel + 1) t p geom dir position =
      some (t.modify (insertChild (min position n.children.length) (created geom dir)) p) := by
  have hle : min position n.children.length ≤ n.children.length := Nat.min_le_right _ _
  rw [createChildAt, childCount_of_subtree? hn]
  generalize min position n.children.length = k at hle ⊢
  have hn' : (t.modify (insertChild k (.node {} [])) p).subtree? p = some (insertChild k (.node {} []) n) := by
    rw [RoseTree.subtree?_modify_self, hn]
    rfl
  have hk : (insertChild k (.node {} []) n).children[k]? = some (.node {} []) := by
    rw [insertChild, RoseTree.children_node, List.getElem?_insertIdx_self, if_pos hle]
  show ((setRelativeGeometry (fuel + 1) (t.modify (insertChild k (.node {} [])) p) (k :: p) geom).bind _) = _
  rw [setRelativeGeometry_new fuel hn' hk hm hs hf]
  refine congrArg some ?_
  simp only [setLayoutDirection, setGeometryLock, setTileGeometry, RoseTree.modifyValue, RoseTree.modify,
    RoseTree.modify_modify]
  refine RoseTree.modify_congr fun m hm' => ?_
  cases hn.symm.trans hm'
  simp [insertChild, RoseTree.modify_insertIdx _ _ _ _ hle, hm.constrained, created]

end KWin.Tiles

namespace KWin.Tiles

open RoseTree (node)

variable {Window : Type} {t t' : Tiles Window} {p : List Nat} {geom : RectF} {fuel : Nat}

-- What setting a geometry leaves alone.
def shape (t : Tiles Window) : RoseTree (LayoutDirection × List Window) :=
  t.map fun tile => (tile.layoutDirection, tile.windows)

@[simp] theorem shape_setGeometryLock (lock : Bool) : (t.setGeometryLock p lock).shape = t.shape :=
  RoseTree.map_modifyValue fun _ _ => rfl

@[simp] theorem shape_setTileGeometry : (t.setTileGeometry p geom).shape = t.shape :=
  RoseTree.map_modifyValue fun _ _ => rfl

section

variable {set : Tiles Window → List Nat → RectF → Option (Tiles Window)}
variable (hset : ∀ {t p geom t'}, set t p geom = some t' → t'.shape = t.shape)
include hset

theorem shape_moveEdge {edge : Edge} {moved : Option RectF} (h : moveEdge set p edge t geom = some (t', moved)) :
    t'.shape = t.shape := by
  rw [moveEdge] at h
  split at h
  case isTrue =>
    cases h
    rfl
  case isFalse =>
    split at h
    case h_2 =>
      cases h
      rfl
    case h_1 =>
      dsimp only at h
      split at h
      case isTrue =>
        cases h
        exact shape_setGeometryLock false
      case isFalse =>
        have ⟨t₁, h₁, h⟩ := Option.bind_eq_some_iff.mp h
        cases h
        exact hset h₁

theorem shape_moveEdges {edges : List Edge} {moved : Option RectF} (h : moveEdges set p edges t geom = some (t', moved)) :
    t'.shape = t.shape := by
  induction edges generalizing t geom
  case nil =>
    cases h
    exact shape_setGeometryLock false
  case cons edge edges ih =>
    have ⟨⟨t₁, moved₁⟩, h₁, h⟩ := Option.bind_eq_some_iff.mp h
    cases moved₁
    case none =>
      cases h
      exact shape_moveEdge hset h₁
    case some => exact (ih h).trans (shape_moveEdge hset h₁)

theorem shape_resizeChildren {rows : List Nat} (h : resizeChildren set p geom rows t = some t') : t'.shape = t.shape := by
  induction rows generalizing t
  case nil =>
    cases h
    rfl
  case cons i rows ih =>
    have ⟨t₁, h₁, h⟩ := Option.bind_eq_some_iff.mp h
    exact (ih h).trans (hset h₁)

theorem shape_settle (h : settle set t p geom = some t') : t'.shape = t.shape := by
  have ⟨t₁, h₁, h⟩ := Option.bind_eq_some_iff.mp h
  have ⟨t₂, h₂, h⟩ := Option.bind_eq_some_iff.mp h
  have ⟨t₃, h₃, h⟩ := Option.bind_eq_some_iff.mp h
  have hs₂ : t₂.shape = t₁.shape := by
    rw [resizeFirst] at h₂
    split at h₂
    case isTrue => cases h₂; rfl
    case isFalse => exact hset h₂
  have hs₃ : t₃.shape = t₂.shape := by
    rw [resizeLast] at h₃
    split at h₃
    case isTrue => cases h₃; rfl
    case isFalse => exact hset h₃
  cases h
  rw [shape_setGeometryLock, shape_setTileGeometry, hs₃, hs₂, shape_resizeChildren hset h₁]

end

theorem shape_setRelativeGeometry (h : setRelativeGeometry fuel t p geom = some t') : t'.shape = t.shape := by
  induction fuel generalizing t p geom t'
  case zero => cases h
  case succ fuel ih =>
    by_cases he : t.relativeGeometry p = geom
    case pos =>
      rw [setRelativeGeometry, if_pos he] at h
      cases h
      rfl
    case neg =>
      rw [setRelativeGeometry_eq fuel he] at h
      cases hf : fitted geom
      case none =>
        rw [hf] at h
        cases h
        rfl
      case some finalGeom =>
        rw [hf] at h
        dsimp only [Option.elim_some] at h
        split at h
        case isTrue => exact shape_settle ih h
        case isFalse =>
          split at h
          case isTrue => exact shape_settle ih h
          case isFalse =>
            have ⟨⟨t₁, moved⟩, h₁, h⟩ := Option.bind_eq_some_iff.mp h
            have hs₁ := (shape_moveEdges ih h₁).trans (shape_setGeometryLock true)
            cases moved
            case none =>
              cases h
              exact hs₁
            case some => exact (shape_settle ih h).trans hs₁

end KWin.Tiles
