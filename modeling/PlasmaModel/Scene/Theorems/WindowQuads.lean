import Mathlib.Order.Bounds.Basic
import Mathlib.Tactic.FieldSimp
import PlasmaModel.Region.RectF
import PlasmaModel.Scene.WindowQuads

namespace KWin

open Cuts

-- An affine map from positions to texture coordinates.
structure TextureMap where
  u  : ℚ
  ux : ℚ
  uy : ℚ
  v  : ℚ
  vx : ℚ
  vy : ℚ

namespace WindowQuad

-- The quad is axis-aligned and not degenerate.
structure Aligned (quad : WindowQuad) : Prop where
  wide  : quad.left < quad.right
  tall  : quad.top < quad.bottom
  vert0 : quad.vert0.px = quad.left ∧ quad.vert0.py = quad.top
  vert1 : quad.vert1.px = quad.right ∧ quad.vert1.py = quad.top
  vert2 : quad.vert2.px = quad.right ∧ quad.vert2.py = quad.bottom
  vert3 : quad.vert3.px = quad.left ∧ quad.vert3.py = quad.bottom

def Textured (quad : WindowQuad) (m : TextureMap) : Prop :=
  ∀ vert ∈ quad.verts,
    vert.tx = m.u + m.ux * vert.px + m.uy * vert.py ∧ vert.ty = m.v + m.vx * vert.px + m.vy * vert.py

def Contains (quad : WindowQuad) (p : PointF) : Prop :=
  (quad.left ≤ p.x ∧ p.x ≤ quad.right) ∧ quad.top ≤ p.y ∧ p.y ≤ quad.bottom

def Interior (quad : WindowQuad) (p : PointF) : Prop :=
  (quad.left < p.x ∧ p.x < quad.right) ∧ quad.top < p.y ∧ p.y < quad.bottom

structure Tiles (quad : WindowQuad) (pieces : List WindowQuad) : Prop where
  aligned  : ∀ piece ∈ pieces, piece.Aligned
  union    : ∀ p, (∃ piece ∈ pieces, piece.Contains p) ↔ quad.Contains p
  disjoint : pieces.Pairwise fun a b => ∀ p, ¬(a.Interior p ∧ b.Interior p)
  textured : ∀ m, quad.Textured m → ∀ piece ∈ pieces, piece.Textured m

variable {quad : WindowQuad} {m : TextureMap} {x1 y1 x2 y2 : ℚ} {xs ys : List (ℚ × ℚ)}

theorem Aligned.hasNoSize (a : quad.Aligned) : quad.hasNoSize = false := by
  simp [WindowQuad.hasNoSize, a.wide.ne, a.tall.ne]

theorem Aligned.tiles_self (a : quad.Aligned) : quad.Tiles [quad] where
  aligned  := by simpa using a
  union    := by simp
  disjoint := List.pairwise_singleton ..
  textured := by simp

theorem left_makeSubQuad (h : x1 < x2) : (quad.makeSubQuad x1 y1 x2 y2).left = x1 := by
  simp [left, makeSubQuad, subVertex, h.le]

theorem right_makeSubQuad (h : x1 < x2) : (quad.makeSubQuad x1 y1 x2 y2).right = x2 := by
  simp [right, makeSubQuad, subVertex, h.le]

theorem top_makeSubQuad (h : y1 < y2) : (quad.makeSubQuad x1 y1 x2 y2).top = y1 := by
  simp [top, makeSubQuad, subVertex, h.le]

theorem bottom_makeSubQuad (h : y1 < y2) : (quad.makeSubQuad x1 y1 x2 y2).bottom = y2 := by
  simp [bottom, makeSubQuad, subVertex, h.le]

theorem aligned_makeSubQuad (hx : x1 < x2) (hy : y1 < y2) : (quad.makeSubQuad x1 y1 x2 y2).Aligned := by
  constructor <;>
    simp only [left_makeSubQuad hx, right_makeSubQuad hx, top_makeSubQuad hy, bottom_makeSubQuad hy, hx, hy] <;>
    exact ⟨rfl, rfl⟩

-- The bilinear interpolation of an affine map is that map.
theorem Aligned.interpolate (a : quad.Aligned) {coord : WindowVertex → ℚ} {c cx cy : ℚ}
    (h : ∀ vert ∈ quad.verts, coord vert = c + cx * vert.px + cy * vert.py) (px py : ℚ) :
    quad.interpolate coord px py = c + cx * px + cy * py := by
  have hw : quad.right - quad.left ≠ 0 := sub_ne_zero.mpr a.wide.ne'
  have hh : quad.bottom - quad.top ≠ 0 := sub_ne_zero.mpr a.tall.ne'
  simp only [verts, List.forall_mem_cons] at h
  have ⟨h0, h1, h2, h3, _⟩ := h
  rw [a.vert0.1, a.vert0.2] at h0
  rw [a.vert1.1, a.vert1.2] at h1
  rw [a.vert2.1, a.vert2.2] at h2
  rw [a.vert3.1, a.vert3.2] at h3
  simp only [WindowQuad.interpolate, h0, h1, h2, h3]
  field_simp
  ring

theorem Aligned.textured_makeSubQuad (a : quad.Aligned) (h : quad.Textured m) :
    (quad.makeSubQuad x1 y1 x2 y2).Textured m := by
  have hu := a.interpolate fun vert hv => (h vert hv).1
  have hv := a.interpolate fun vert hv => (h vert hv).2
  simp [Textured, verts, makeSubQuad, subVertex, hu, hv]

def product (quad : WindowQuad) (xs ys : List (ℚ × ℚ)) : List WindowQuad :=
  ys.flatMap fun y => xs.map fun x => quad.makeSubQuad x.1 y.1 x.2 y.2

theorem Aligned.tiles_product (a : quad.Aligned) (cx : Cut quad.left quad.right xs) (cy : Cut quad.top quad.bottom ys) :
    quad.Tiles (quad.product xs ys) := by
  have hmem {piece : WindowQuad} : piece ∈ quad.product xs ys ↔
      ∃ y ∈ ys, ∃ x ∈ xs, quad.makeSubQuad x.1 y.1 x.2 y.2 = piece := by
    simp [product]
  have hcontains {x y : ℚ × ℚ} (hx : x ∈ xs) (hy : y ∈ ys) {p : PointF} :
      (quad.makeSubQuad x.1 y.1 x.2 y.2).Contains p ↔ (x.1 ≤ p.x ∧ p.x ≤ x.2) ∧ y.1 ≤ p.y ∧ p.y ≤ y.2 := by
    have hx := cx.part_lt x hx
    have hy := cy.part_lt y hy
    rw [Contains, left_makeSubQuad hx, right_makeSubQuad hx, top_makeSubQuad hy, bottom_makeSubQuad hy]
  have hinterior {x y : ℚ × ℚ} (hx : x ∈ xs) (hy : y ∈ ys) {p : PointF} :
      (quad.makeSubQuad x.1 y.1 x.2 y.2).Interior p ↔ (x.1 < p.x ∧ p.x < x.2) ∧ y.1 < p.y ∧ p.y < y.2 := by
    have hx := cx.part_lt x hx
    have hy := cy.part_lt y hy
    rw [Interior, left_makeSubQuad hx, right_makeSubQuad hx, top_makeSubQuad hy, bottom_makeSubQuad hy]
  constructor
  case aligned =>
    intro piece hp
    have ⟨y, hy, x, hx, he⟩ := hmem.mp hp
    exact he ▸ aligned_makeSubQuad (cx.part_lt x hx) (cy.part_lt y hy)
  case union =>
    intro p
    rw [Contains, ← cx.covers, ← cy.covers]
    constructor
    case mp =>
      intro ⟨piece, hp, hc⟩
      have ⟨y, hy, x, hx, he⟩ := hmem.mp hp
      have hc := (hcontains hx hy).mp (he ▸ hc)
      exact ⟨⟨x, hx, hc.1⟩, y, hy, hc.2⟩
    case mpr =>
      intro ⟨⟨x, hx, hcx⟩, y, hy, hcy⟩
      exact ⟨_, hmem.mpr ⟨y, hy, x, hx, rfl⟩, (hcontains hx hy).mpr ⟨hcx, hcy⟩⟩
  case disjoint =>
    rw [product, List.pairwise_flatMap]
    constructor
    case left =>
      intro y hy
      refine List.pairwise_map.mpr (cx.adjacent.imp_of_mem fun {x x'} hx hx' hle p ⟨hi, hi'⟩ => ?_)
      exact absurd (((hinterior hx hy).mp hi).1.2.trans_le hle) ((hinterior hx' hy).mp hi').1.1.not_gt
    case right =>
      refine cy.adjacent.imp_of_mem fun {y y'} hy hy' hle piece hp piece' hp' p ⟨hi, hi'⟩ => ?_
      have ⟨x, hx, he⟩ := List.mem_map.mp hp
      have ⟨x', hx', he'⟩ := List.mem_map.mp hp'
      have hi := (hinterior hx hy).mp (he ▸ hi)
      have hi' := (hinterior hx' hy').mp (he' ▸ hi')
      exact absurd (hi.2.2.trans_le hle) hi'.2.1.not_gt
  case textured =>
    intro m hm piece hp
    have ⟨y, _, x, _, he⟩ := hmem.mp hp
    exact he ▸ a.textured_makeSubQuad hm

end WindowQuad

namespace WindowQuadList

open WindowQuad

variable {quad piece first : WindowQuad} {quads pieces : List WindowQuad} {left top xIncrement yIncrement x y : ℚ}

theorem wholeleft_iff : quad.verts.all (·.px ≤ x) ↔ quad.right ≤ x := by
  simp [verts, WindowQuad.right]

theorem wholeright_iff : quad.verts.all (x ≤ ·.px) ↔ x ≤ quad.left := by
  simp [verts, WindowQuad.left]

theorem wholetop_iff : quad.verts.all (·.py ≤ y) ↔ quad.bottom ≤ y := by
  simp [verts, WindowQuad.bottom]

theorem wholebottom_iff : quad.verts.all (y ≤ ·.py) ↔ y ≤ quad.top := by
  simp [verts, WindowQuad.top]

-- The pieces of each quad stand together, in the order of the quads.
def TilesEach (quads : List WindowQuad) (ok : WindowQuad → Prop) (ret : List WindowQuad) : Prop :=
  ∃ pieces : List (List WindowQuad), ret = pieces.flatten ∧ List.Forall₂ Tiles quads pieces ∧ ∀ piece ∈ ret, ok piece

theorem tilesEach_mapM {ok : WindowQuad → Prop} {f : WindowQuad → Option (List WindowQuad)}
    (h : ∀ quad ∈ quads, ∃ pieces, f quad = some pieces ∧ quad.Tiles pieces ∧ ∀ piece ∈ pieces, ok piece) :
    ∃ pieces, quads.mapM f = some pieces ∧ TilesEach quads ok pieces.flatten := by
  induction quads
  case nil => exact ⟨[], rfl, [], rfl, .nil, by simp⟩
  case cons quad quads ih =>
    have ⟨⟨pieces, hf, ht, hok⟩, hrest⟩ := List.forall_mem_cons.mp h
    have ⟨rest, hm, _, he, hall, hoks⟩ := ih hrest
    refine ⟨pieces :: rest, by simp [hf, hm], _, List.flatten_cons.trans (congrArg _ he), .cons ht hall, ?_⟩
    intro piece hp
    cases List.mem_append.mp hp
    case inl hp => exact hok piece hp
    case inr hp => exact hoks piece hp

theorem tilesEach_flatMap {ok : WindowQuad → Prop} {f : WindowQuad → List WindowQuad}
    (h : ∀ quad ∈ quads, quad.Tiles (f quad) ∧ ∀ piece ∈ f quad, ok piece) : TilesEach quads ok (quads.flatMap f) := by
  refine ⟨quads.map f, List.flatMap_def, ?_, ?_⟩
  · rw [List.forall₂_map_right_iff, List.forall₂_same]
    exact fun quad hq => (h quad hq).1
  · intro piece hp
    have ⟨quad, hq, hp⟩ := List.mem_flatMap.mp hp
    exact (h quad hq).2 piece hp

theorem splitAtX_tiles (ha : ∀ quad ∈ quads, quad.Aligned) (x : ℚ) :
    TilesEach quads (fun piece => piece.right ≤ x ∨ x ≤ piece.left) (splitAtX quads x) := by
  apply tilesEach_flatMap
  intro quad hq
  have a := ha quad hq
  simp only [Bool.or_eq_true, wholeleft_iff, wholeright_iff, a.hasNoSize, Bool.false_eq_true, if_false]
  split
  case isTrue h => exact ⟨a.tiles_self, by simpa using h⟩
  case isFalse h =>
    simp only [not_or, not_le] at h
    refine ⟨a.tiles_product (.part h.2 (.whole h.1)) (.whole a.tall), ?_⟩
    simp [right_makeSubQuad h.2, left_makeSubQuad h.1]

theorem splitAtY_tiles (ha : ∀ quad ∈ quads, quad.Aligned) (y : ℚ) :
    TilesEach quads (fun piece => piece.bottom ≤ y ∨ y ≤ piece.top) (splitAtY quads y) := by
  apply tilesEach_flatMap
  intro quad hq
  have a := ha quad hq
  simp only [Bool.or_eq_true, wholetop_iff, wholebottom_iff, a.hasNoSize, Bool.false_eq_true, if_false]
  split
  case isTrue h => exact ⟨a.tiles_self, by simpa using h⟩
  case isFalse h =>
    simp only [not_or, not_le] at h
    refine ⟨a.tiles_product (.whole a.wide) (.part h.2 (.whole h.1)), ?_⟩
    simp [bottom_makeSubQuad h.2, top_makeSubQuad h.1]

-- The piece lies in one cell of the grid which starts at `left` and `top`.
def InCell (left top xIncrement yIncrement : ℚ) (piece : WindowQuad) : Prop :=
  ∃ i j : ℤ, (left + i * xIncrement ≤ piece.left ∧ piece.right ≤ left + (i + 1) * xIncrement) ∧
    (top + j * yIncrement ≤ piece.top ∧ piece.bottom ≤ top + (j + 1) * yIncrement)

theorem cells_tiles (a : quad.Aligned) (hx : 0 < xIncrement) (hy : 0 < yIncrement) :
    ∃ pieces, cells quad left top xIncrement yIncrement = some pieces ∧ quad.Tiles pieces ∧
      ∀ piece ∈ pieces, InCell left top xIncrement yIncrement piece := by
  obtain ⟨xs, hxs, cx, hix⟩ := grid_cut left hx a.wide
  obtain ⟨ys, hys, cy, hiy⟩ := grid_cut top hy a.tall
  refine ⟨_, by simp only [cells, hxs, hys]; rfl, ?_, ?_⟩
  · have ht := a.tiles_product cx cy
    rw [product, List.flatMap_map] at ht
    simpa only [List.map_map, Function.comp_def] using ht
  · intro piece hp
    obtain ⟨y, hmy, hp⟩ := List.mem_flatMap.mp hp
    obtain ⟨x, hmx, he⟩ := List.mem_map.mp hp
    obtain ⟨i, hi⟩ := hix x hmx
    obtain ⟨j, hj⟩ := hiy y hmy
    have hltx := cx.part_lt _ (List.mem_map_of_mem hmx)
    have hlty := cy.part_lt _ (List.mem_map_of_mem hmy)
    rw [InCell, ← he, left_makeSubQuad hltx, right_makeSubQuad hltx, top_makeSubQuad hlty, bottom_makeSubQuad hlty]
    refine ⟨i, j, ⟨hi ▸ le_max_left .., (min_le_right ..).trans_eq ?_⟩, hj ▸ le_max_left .., (min_le_right ..).trans_eq ?_⟩
    · rw [hi]; ring
    · rw [hj]; ring

theorem grid_tiles (left top : ℚ) (ha : ∀ quad ∈ quads, quad.Aligned) (hx : 0 < xIncrement) (hy : 0 < yIncrement) :
    ∃ ret, grid quads left top xIncrement yIncrement = some ret ∧
      TilesEach quads (InCell left top xIncrement yIncrement) ret := by
  have hcells : ∀ quad ∈ quads, ∃ pieces,
      (if quad.hasNoSize then some [quad] else cells quad left top xIncrement yIncrement) = some pieces ∧
        quad.Tiles pieces ∧ ∀ piece ∈ pieces, InCell left top xIncrement yIncrement piece := by
    intro quad hq
    rw [(ha quad hq).hasNoSize, if_neg (by decide)]
    exact cells_tiles (ha quad hq) hx hy
  have ⟨pieces, hm, ht⟩ := tilesEach_mapM hcells
  exact ⟨_, by simp only [grid, hm]; rfl, ht⟩

-- The edges of the bounding rectangle of all the quads.
structure Bounds (quads : List WindowQuad) (left top right bottom : ℚ) : Prop where
  left   : IsLeast (WindowQuad.left '' {quad | quad ∈ quads}) left
  top    : IsLeast (WindowQuad.top '' {quad | quad ∈ quads}) top
  right  : IsGreatest (WindowQuad.right '' {quad | quad ∈ quads}) right
  bottom : IsGreatest (WindowQuad.bottom '' {quad | quad ∈ quads}) bottom

theorem isLeast_foldl_min {α : Type*} [LinearOrder α] (f : WindowQuad → α) (h : first ∈ quads) :
    IsLeast (f '' {quad | quad ∈ quads}) (quads.foldl (fun m quad => min m (f quad)) (f first)) := by
  have hfold (l : List WindowQuad) (m : α) : (∀ quad ∈ l, l.foldl (fun m quad => min m (f quad)) m ≤ f quad) ∧
      l.foldl (fun m quad => min m (f quad)) m ≤ m ∧
      (l.foldl (fun m quad => min m (f quad)) m = m ∨ ∃ quad ∈ l, l.foldl (fun m quad => min m (f quad)) m = f quad) := by
    induction l generalizing m
    case nil => simp
    case cons quad l ih =>
      have ⟨hall, hle, heq⟩ := ih (min m (f quad))
      refine ⟨List.forall_mem_cons.mpr ⟨hle.trans (min_le_right ..), hall⟩, hle.trans (min_le_left ..), ?_⟩
      cases heq
      case inl heq =>
        cases min_choice m (f quad)
        case inl hm => exact .inl (heq.trans hm)
        case inr hm => exact .inr ⟨quad, .head _, heq.trans hm⟩
      case inr heq =>
        have ⟨q, hq, he⟩ := heq
        exact .inr ⟨q, .tail _ hq, he⟩
  have ⟨hall, _, heq⟩ := hfold quads (f first)
  refine ⟨?_, by simpa [mem_lowerBounds] using hall⟩
  cases heq
  case inl heq => exact ⟨first, h, heq.symm⟩
  case inr heq =>
    have ⟨q, hq, he⟩ := heq
    exact ⟨q, hq, he.symm⟩

theorem isGreatest_foldl_max (f : WindowQuad → ℚ) (h : first ∈ quads) :
    IsGreatest (f '' {quad | quad ∈ quads}) (quads.foldl (fun m quad => max m (f quad)) (f first)) :=
  isLeast_foldl_min (α := ℚᵒᵈ) f h

theorem bounds_eq : bounds first quads =
    (quads.foldl (fun m quad => min m quad.left) first.left, quads.foldl (fun m quad => min m quad.top) first.top,
      quads.foldl (fun m quad => max m quad.right) first.right,
      quads.foldl (fun m quad => max m quad.bottom) first.bottom) := by
  have hfold (l : List WindowQuad) (a b c d : ℚ) : l.foldl
      (fun m quad => (min m.1 quad.left, min m.2.1 quad.top, max m.2.2.1 quad.right, max m.2.2.2 quad.bottom))
      (a, b, c, d) = (l.foldl (fun m quad => min m quad.left) a, l.foldl (fun m quad => min m quad.top) b,
        l.foldl (fun m quad => max m quad.right) c, l.foldl (fun m quad => max m quad.bottom) d) := by
    induction l generalizing a b c d
    case nil => rfl
    case cons quad l ih => exact ih ..
  exact hfold quads ..

theorem bounds_spec (h : first ∈ quads) :
    ∃ left top right bottom, bounds first quads = (left, top, right, bottom) ∧ Bounds quads left top right bottom :=
  ⟨_, _, _, _, bounds_eq, isLeast_foldl_min _ h, isLeast_foldl_min _ h, isGreatest_foldl_max _ h,
    isGreatest_foldl_max _ h⟩

theorem Bounds.eq {left top right bottom left' top' right' bottom' : ℚ} (b : Bounds quads left top right bottom)
    (b' : Bounds quads left' top' right' bottom') :
    left = left' ∧ top = top' ∧ right = right' ∧ bottom = bottom' :=
  ⟨b.left.unique b'.left, b.top.unique b'.top, b.right.unique b'.right, b.bottom.unique b'.bottom⟩

theorem Bounds.size_pos {left top right bottom : ℚ} (b : Bounds quads left top right bottom) (h : quad ∈ quads)
    (a : quad.Aligned) : 0 < right - left ∧ 0 < bottom - top := by
  have hl := b.left.2 ⟨quad, h, rfl⟩
  have ht := b.top.2 ⟨quad, h, rfl⟩
  have hr := b.right.2 ⟨quad, h, rfl⟩
  have hb := b.bottom.2 ⟨quad, h, rfl⟩
  exact ⟨sub_pos.mpr ((hl.trans_lt a.wide).trans_le hr), sub_pos.mpr ((ht.trans_lt a.tall).trans_le hb)⟩

theorem makeGrid_tiles (ha : ∀ quad ∈ quads, quad.Aligned) {maxQuadSize : Int} (hs : 0 < maxQuadSize) :
    ∃ ret, makeGrid quads maxQuadSize = some ret ∧ TilesEach quads (fun piece =>
      ∀ left top right bottom, Bounds quads left top right bottom → InCell left top maxQuadSize maxQuadSize piece) ret := by
  cases quads
  case nil => exact ⟨[], rfl, [], rfl, .nil, by simp⟩
  case cons first rest =>
    have hs : (0 : ℚ) < maxQuadSize := Int.cast_pos.mpr hs
    have ⟨left, top, right, bottom, he, b⟩ := bounds_spec (List.mem_cons_self : first ∈ first :: rest)
    have ⟨ret, hret, pieces, hp, ht, hc⟩ := grid_tiles left top ha hs hs
    refine ⟨ret, by simp only [makeGrid, he, hret], pieces, hp, ht, fun piece hm l t r b' hb => ?_⟩
    have ⟨hl, ht, _⟩ := b.eq hb
    exact hl ▸ ht ▸ hc piece hm

theorem makeRegularGrid_tiles (ha : ∀ quad ∈ quads, quad.Aligned) {xSubdivisions ySubdivisions : Int}
    (hx : 0 < xSubdivisions) (hy : 0 < ySubdivisions) :
    ∃ ret, makeRegularGrid quads xSubdivisions ySubdivisions = some ret ∧ TilesEach quads (fun piece =>
      ∀ left top right bottom, Bounds quads left top right bottom →
        InCell left top ((right - left) / xSubdivisions) ((bottom - top) / ySubdivisions) piece) ret := by
  cases quads
  case nil => exact ⟨[], rfl, [], rfl, .nil, by simp⟩
  case cons first rest =>
    have ⟨left, top, right, bottom, he, b⟩ := bounds_spec (List.mem_cons_self : first ∈ first :: rest)
    have ⟨hw, hh⟩ := b.size_pos (.head _) (ha first (.head _))
    have ⟨ret, hret, pieces, hp, ht, hc⟩ := grid_tiles left top ha
      (div_pos hw (Int.cast_pos.mpr hx)) (div_pos hh (Int.cast_pos.mpr hy))
    refine ⟨ret, by simp only [makeRegularGrid, he, hret], pieces, hp, ht, fun piece hm l t r b' hb => ?_⟩
    obtain ⟨rfl, rfl, rfl, rfl⟩ := b.eq hb
    exact hc piece hm

theorem pieces_tile (ha : ∀ quad ∈ quads, quad.Aligned) :
    (∀ x, TilesEach quads (fun piece => piece.right ≤ x ∨ x ≤ piece.left) (splitAtX quads x)) ∧
    (∀ y, TilesEach quads (fun piece => piece.bottom ≤ y ∨ y ≤ piece.top) (splitAtY quads y)) ∧
    (∀ maxQuadSize : Int, 0 < maxQuadSize → ∃ ret, makeGrid quads maxQuadSize = some ret ∧
      TilesEach quads (fun piece => ∀ left top right bottom, Bounds quads left top right bottom →
        InCell left top maxQuadSize maxQuadSize piece) ret) ∧
    ∀ xSubdivisions ySubdivisions : Int, 0 < xSubdivisions → 0 < ySubdivisions →
      ∃ ret, makeRegularGrid quads xSubdivisions ySubdivisions = some ret ∧
        TilesEach quads (fun piece => ∀ left top right bottom, Bounds quads left top right bottom →
          InCell left top ((right - left) / xSubdivisions) ((bottom - top) / ySubdivisions) piece) ret :=
  ⟨splitAtX_tiles ha, splitAtY_tiles ha, fun _ => makeGrid_tiles ha, fun _ _ => makeRegularGrid_tiles ha⟩

-- A quad whose texture axes are swapped.
def swapped : WindowQuad :=
  ⟨⟨0, 0, 0, 0⟩, ⟨40, 0, 0, 1⟩, ⟨40, 30, 1, 1⟩, ⟨0, 30, 1, 0⟩⟩

theorem pieces_tile_swapped :
    ∃ ret, makeGrid [swapped] 10 = some ret ∧
      TilesEach [swapped] (fun piece => ∀ left top right bottom, Bounds [swapped] left top right bottom →
        InCell left top 10 10 piece) ret :=
  have ha : ∀ quad ∈ [swapped], quad.Aligned := by
    simp only [List.mem_singleton, forall_eq]
    constructor <;> simp [swapped, WindowQuad.left, WindowQuad.right, WindowQuad.top, WindowQuad.bottom]
  (pieces_tile ha).2.2.1 10 (by decide)

end WindowQuadList

end KWin
