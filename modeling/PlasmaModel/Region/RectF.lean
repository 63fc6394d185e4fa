import Mathlib
import PlasmaModel.Region.Rect

namespace KWin

structure RectF where
  left   : ℚ := 0
  top    : ℚ := 0
  right  : ℚ := 0
  bottom : ℚ := 0
deriving DecidableEq, Inhabited

structure PointF where
  x : ℚ
  y : ℚ
deriving DecidableEq

structure SizeF where
  width  : ℚ
  height : ℚ
deriving DecidableEq

-- This is `std::round`: halves are rounded away from zero.
def roundAway (x : ℚ) : Int :=
  if 0 ≤ x then ⌊x + 1 / 2⌋ else ⌈x - 1 / 2⌉

@[simp]
theorem roundAway_intCast (n : Int) : roundAway n = n := by
  unfold roundAway
  split_ifs
  · rw [Int.floor_eq_iff]
    constructor <;> linarith
  · rw [Int.ceil_eq_iff]
    constructor <;> linarith

theorem roundAway_le (x : ℚ) : roundAway x ≤ x + 1 / 2 := by
  unfold roundAway
  split_ifs
  · exact Int.floor_le _
  · have := Int.ceil_lt_add_one (x - 1 / 2)
    linarith

theorem le_roundAway (x : ℚ) : x - 1 / 2 ≤ roundAway x := by
  unfold roundAway
  split_ifs
  · have := Int.lt_floor_add_one (x + 1 / 2)
    linarith
  · exact Int.le_ceil _

namespace RectF

def isEmpty (r : RectF) : Bool :=
  r.right ≤ r.left || r.bottom ≤ r.top

def contains (r rect : RectF) : Bool :=
  !r.isEmpty && (r.left ≤ rect.left && rect.right ≤ r.right) && (r.top ≤ rect.top && rect.bottom ≤ r.bottom)

def moveLeft (r : RectF) (left : ℚ) : RectF :=
  { r with left, right := r.right + (left - r.left) }

def moveTop (r : RectF) (top : ℚ) : RectF :=
  { r with top, bottom := r.bottom + (top - r.top) }

def moveRight (r : RectF) (right : ℚ) : RectF :=
  { r with right, left := r.left + (right - r.right) }

def moveBottom (r : RectF) (bottom : ℚ) : RectF :=
  { r with bottom, top := r.top + (bottom - r.bottom) }

def moveTopLeft (r : RectF) (point : PointF) : RectF :=
  (r.moveLeft point.x).moveTop point.y

def rounded (r : RectF) : Rect :=
  ⟨roundAway r.left, roundAway r.top, roundAway r.right, roundAway r.bottom⟩

def roundedIn (r : RectF) : Rect :=
  ⟨⌈r.left⌉, ⌈r.top⌉, ⌊r.right⌋, ⌊r.bottom⌋⟩

def roundedOut (r : RectF) : Rect :=
  ⟨⌊r.left⌋, ⌊r.top⌋, ⌈r.right⌉, ⌈r.bottom⌉⟩

def translated (r : RectF) (offset : PointF) : RectF :=
  ⟨r.left + offset.x, r.top + offset.y, r.right + offset.x, r.bottom + offset.y⟩

def scaled (r : RectF) (factor : ℚ) : RectF :=
  ⟨r.left * factor, r.top * factor, r.right * factor, r.bottom * factor⟩

def intersects (r other : RectF) : Bool :=
  !r.isEmpty && !other.isEmpty && r.left < other.right && other.left < r.right && r.top < other.bottom &&
    other.top < r.bottom

def united (r other : RectF) : RectF :=
  if r.isEmpty then
    other
  else if other.isEmpty then
    r
  else
    ⟨min r.left other.left, min r.top other.top, max r.right other.right, max r.bottom other.bottom⟩

-- Empty rectangles are nowhere, whatever their edges are.
def Same (a b : RectF) : Prop :=
  a = b ∨ (a.isEmpty ∧ b.isEmpty)

def Covers (x r : RectF) : Prop :=
  r.isEmpty = false → x.left ≤ r.left ∧ x.top ≤ r.top ∧ r.right ≤ x.right ∧ r.bottom ≤ x.bottom

variable {a b x : RectF}

theorem isEmpty_eq_false_iff : a.isEmpty = false ↔ a.left < a.right ∧ a.top < a.bottom := by
  simp [isEmpty]

theorem contains_iff : a.contains b = true ↔
    a.isEmpty = false ∧ (a.left ≤ b.left ∧ b.right ≤ a.right) ∧ a.top ≤ b.top ∧ b.bottom ≤ a.bottom := by
  simp [contains, and_assoc]

theorem same_refl (a : RectF) : Same a a :=
  .inl rfl

theorem covers_united : Covers x (a.united b) ↔ Covers x a ∧ Covers x b := by
  unfold united
  split_ifs with ha hb
  case pos => simp [Covers, ha]
  case pos => simp [Covers, hb]
  case neg =>
    have ha' := isEmpty_eq_false_iff.mp (Bool.not_eq_true _ ▸ ha)
    have hb' := isEmpty_eq_false_iff.mp (Bool.not_eq_true _ ▸ hb)
    have hu : (RectF.mk (min a.left b.left) (min a.top b.top) (max a.right b.right) (max a.bottom b.bottom)).isEmpty =
        false := isEmpty_eq_false_iff.mpr
      ⟨(min_le_left ..).trans_lt (ha'.1.trans_le (le_max_left ..)),
        (min_le_left ..).trans_lt (ha'.2.trans_le (le_max_left ..))⟩
    simp only [Covers, hu, ha, hb, forall_const, le_min_iff, max_le_iff]
    tauto

theorem covers_foldl_united {α : Type} {f : α → RectF} {l : List α} :
    Covers x (l.foldl (fun r c => r.united (f c)) a) ↔ Covers x a ∧ ∀ c ∈ l, Covers x (f c) := by
  induction l generalizing a
  case nil => simp
  case cons c l ih =>
    rw [List.foldl_cons, ih, covers_united, List.forall_mem_cons, and_assoc]

-- A rectangle is known by what covers it.
theorem same_of_covers (h : ∀ x, Covers x a ↔ Covers x b) : Same a b := by
  cases ha : a.isEmpty <;> cases hb : b.isEmpty
  case true.true => exact .inr ⟨ha, hb⟩
  case false.false =>
    have hab := (h a).mp (fun _ => ⟨le_rfl, le_rfl, le_rfl, le_rfl⟩) hb
    have hba := (h b).mpr (fun _ => ⟨le_rfl, le_rfl, le_rfl, le_rfl⟩) ha
    left
    cases a
    cases b
    simp only [RectF.mk.injEq]
    exact ⟨le_antisymm hab.1 hba.1, le_antisymm hab.2.1 hba.2.1, le_antisymm hba.2.2.1 hab.2.2.1,
      le_antisymm hba.2.2.2 hab.2.2.2⟩
  case false.true =>
    have hx := (h ⟨a.right, 0, 0, 0⟩).mpr (fun hn => absurd (hb.symm.trans hn) (by decide)) ha
    exact absurd (isEmpty_eq_false_iff.mp ha).1 (not_lt.mpr hx.1)
  case true.false =>
    have hx := (h ⟨b.right, 0, 0, 0⟩).mp (fun hn => absurd (ha.symm.trans hn) (by decide)) hb
    exact absurd (isEmpty_eq_false_iff.mp hb).1 (not_lt.mpr hx.1)

theorem Same.covers (h : Same a b) (x : RectF) : Covers x a ↔ Covers x b := by
  cases h with
  | inl h => rw [h]
  | inr h => simp [Covers, h.1, h.2]

theorem Same.trans {c : RectF} (h : Same a b) (h' : Same b c) : Same a c :=
  same_of_covers fun x => (h.covers x).trans (h'.covers x)

theorem same_foldl_united {α : Type} {f : α → RectF} {l l' : List α} (h : l.Perm l') :
    Same (l.foldl (fun r c => r.united (f c)) a) (l'.foldl (fun r c => r.united (f c)) a) := by
  refine same_of_covers fun x => ?_
  rw [covers_foldl_united, covers_foldl_united]
  exact and_congr_right' ⟨fun hl c hc => hl c (h.mem_iff.mpr hc), fun hl c hc => hl c (h.mem_iff.mp hc)⟩

end RectF

def snapToPixels (logicalValue : PointF) (scale : ℚ) : PointF :=
  ⟨roundAway (logicalValue.x * scale) / scale, roundAway (logicalValue.y * scale) / scale⟩

namespace Rect

def grownBy (r : Rect) (margins : Margins) : Rect :=
  ⟨r.left - margins.left, r.top - margins.top, r.right + margins.right, r.bottom + margins.bottom⟩

def toRectF (r : Rect) : RectF :=
  ⟨r.left, r.top, r.right, r.bottom⟩

def scaled (r : Rect) (xScale yScale : ℚ) : RectF :=
  ⟨r.left * xScale, r.top * yScale, r.right * xScale, r.bottom * yScale⟩

end Rect

end KWin
