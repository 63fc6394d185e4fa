import Mathlib.Data.Int.Order.Basic

namespace KWin

-- This is `Qt::Orientations`.
structure Orientations where
  horizontal : Bool := false
  vertical   : Bool := false
deriving DecidableEq

@[ext]
structure Rect where
  left   : Int
  top    : Int
  right  : Int
  bottom : Int
deriving DecidableEq, Inhabited

structure Point where
  x : Int
  y : Int
deriving DecidableEq

structure Margins where
  left   : Int := 0
  top    : Int := 0
  right  : Int := 0
  bottom : Int := 0

namespace Rect

def isEmpty (r : Rect) : Bool :=
  r.left ≥ r.right || r.top ≥ r.bottom

def contains (r rect : Rect) : Bool :=
  !r.isEmpty && (r.left ≤ rect.left && rect.right ≤ r.right) &&
    (r.top ≤ rect.top && rect.bottom ≤ r.bottom)

def containsPoint (r : Rect) (p : Point) : Bool :=
  (r.left ≤ p.x && p.x < r.right) && (r.top ≤ p.y && p.y < r.bottom)

def intersects (r other : Rect) : Bool :=
  if r.isEmpty || other.isEmpty then
    false
  else
    r.left < other.right && other.left < r.right && r.top < other.bottom && other.top < r.bottom

def united (r other : Rect) : Rect :=
  if r.isEmpty then
    other
  else if other.isEmpty then
    r
  else
    ⟨min r.left other.left, min r.top other.top, max r.right other.right, max r.bottom other.bottom⟩

def intersected (r other : Rect) : Rect :=
  if r.isEmpty then
    default
  else if other.isEmpty then
    default
  else
    let intersectionLeft   := max r.left other.left
    let intersectionRight  := min r.right other.right
    let intersectionTop    := max r.top other.top
    let intersectionBottom := min r.bottom other.bottom
    if intersectionLeft ≥ intersectionRight then
      default
    else if intersectionTop ≥ intersectionBottom then
      default
    else
      ⟨intersectionLeft, intersectionTop, intersectionRight, intersectionBottom⟩

instance : Membership Point Rect where
  mem r p := r.containsPoint p

variable {r r₁ r₂ : Rect} {p : Point}

theorem mem_iff : p ∈ r ↔ (r.left ≤ p.x ∧ p.x < r.right) ∧ (r.top ≤ p.y ∧ p.y < r.bottom) := by
  simp [Membership.mem, containsPoint]

theorem isEmpty_false_iff : r.isEmpty = false ↔ r.left < r.right ∧ r.top < r.bottom := by
  simp [isEmpty]

theorem isEmpty_iff_forall_not_mem : r.isEmpty ↔ ∀ p, p ∉ r := by
  constructor
  case mp =>
    intro h p hp
    simp only [isEmpty, Bool.or_eq_true, decide_eq_true_eq] at h
    rw [mem_iff] at hp
    omega
  case mpr =>
    intro h
    by_contra hc
    rw [Bool.not_eq_true, isEmpty_false_iff] at hc
    exact h ⟨r.left, r.top⟩ (mem_iff.mpr (by simp; omega))

@[simp]
theorem default_isEmpty : (default : Rect).isEmpty := by
  decide

@[simp]
theorem not_mem_default : p ∉ (default : Rect) :=
  isEmpty_iff_forall_not_mem.mp default_isEmpty p

theorem mem_of_contains (h : r₁.contains r₂) (hp : p ∈ r₂) : p ∈ r₁ := by
  simp only [contains, Bool.and_eq_true, decide_eq_true_eq] at h
  rw [mem_iff] at *
  omega

theorem intersects_iff :
    r₁.intersects r₂ ↔ (r₁.isEmpty = false) ∧ (r₂.isEmpty = false) ∧
      (r₁.left < r₂.right ∧ r₂.left < r₁.right) ∧ (r₁.top < r₂.bottom ∧ r₂.top < r₁.bottom) := by
  cases h₁ : r₁.isEmpty <;> cases h₂ : r₂.isEmpty <;> simp [intersects, h₁, h₂]
  omega

theorem intersects_of_mem (h₁ : p ∈ r₁) (h₂ : p ∈ r₂) : r₁.intersects r₂ := by
  rw [mem_iff] at h₁ h₂
  simp only [intersects_iff, isEmpty_false_iff]
  omega

theorem mem_intersected : p ∈ r₁.intersected r₂ ↔ p ∈ r₁ ∧ p ∈ r₂ := by
  by_cases h₁ : r₁.isEmpty
  case pos => simp [intersected, h₁, isEmpty_iff_forall_not_mem.mp h₁]
  by_cases h₂ : r₂.isEmpty
  case pos => simp [intersected, h₂, isEmpty_iff_forall_not_mem.mp h₂]
  simp only [intersected, h₁, h₂, if_false, Bool.false_eq_true]
  split
  case isTrue => rw [iff_false_left not_mem_default, mem_iff, mem_iff]; omega
  split
  case isTrue => rw [iff_false_left not_mem_default, mem_iff, mem_iff]; omega
  case isFalse => simp only [mem_iff]; omega

theorem mem_united (h : p ∈ r₁ ∨ p ∈ r₂) : p ∈ r₁.united r₂ := by
  by_cases h₁ : r₁.isEmpty
  case pos => simpa [united, h₁, isEmpty_iff_forall_not_mem.mp h₁] using h
  by_cases h₂ : r₂.isEmpty
  case pos => simpa [united, h₁, h₂, isEmpty_iff_forall_not_mem.mp h₂] using h
  simp only [united, h₁, h₂, if_false, Bool.false_eq_true]
  simp only [mem_iff] at *
  omega

theorem corner_mem (h : r₁.isEmpty = false) : (⟨r₁.left, r₁.top⟩ : Point) ∈ r₁ := by
  have := isEmpty_false_iff.mp h
  exact mem_iff.mpr ⟨⟨le_rfl, this.1⟩, le_rfl, this.2⟩

theorem contains_iff (h : r₁.isEmpty = false) (hn : r₂.isEmpty = false) : r₁.contains r₂ ↔ ∀ p ∈ r₂, p ∈ r₁ := by
  refine ⟨fun h p hp => mem_of_contains h hp, fun hp => ?_⟩
  have hrect := isEmpty_false_iff.mp hn
  have hfirst := mem_iff.mp (hp _ (corner_mem hn))
  have hlast := mem_iff.mp (hp ⟨r₂.right - 1, r₂.bottom - 1⟩ (mem_iff.mpr (by simp; omega)))
  simp only [contains, h, Bool.not_false, Bool.true_and, Bool.and_eq_true, decide_eq_true_eq]
  simp only at hfirst hlast
  omega

theorem intersects_iff_exists (h₁ : r₁.isEmpty = false) (h₂ : r₂.isEmpty = false) :
    r₁.intersects r₂ ↔ ∃ p ∈ r₂, p ∈ r₁ := by
  refine ⟨fun h => ?_, fun ⟨p, hp₂, hp₁⟩ => intersects_of_mem hp₁ hp₂⟩
  have h := (intersects_iff.mp h).2.2
  rw [isEmpty_false_iff] at h₁ h₂
  exact ⟨⟨max r₁.left r₂.left, max r₁.top r₂.top⟩, mem_iff.mpr (by simp only; omega), mem_iff.mpr (by simp only; omega)⟩

end Rect

inductive Gravity
  | none | left | right | top | bottom | topLeft | topRight | bottomLeft | bottomRight
deriving DecidableEq

structure Size where
  width  : Int
  height : Int
deriving DecidableEq

namespace Rect

def ofSize (topLeft : Point) (size : Size) : Rect where
  left   := topLeft.x
  top    := topLeft.y
  right  := topLeft.x + size.width
  bottom := topLeft.y + size.height

def topLeft (r : Rect) : Point :=
  ⟨r.left, r.top⟩

def size (r : Rect) : Size :=
  ⟨r.right - r.left, r.bottom - r.top⟩

def center (r : Rect) : Point :=
  ⟨r.left + (r.right - r.left).tdiv 2, r.top + (r.bottom - r.top).tdiv 2⟩

def translated (r : Rect) (p : Point) : Rect :=
  ⟨r.left + p.x, r.top + p.y, r.right + p.x, r.bottom + p.y⟩

end Rect

namespace Point

instance : Zero Point := ⟨⟨0, 0⟩⟩

instance : Add Point := ⟨fun p q => ⟨p.x + q.x, p.y + q.y⟩⟩

instance : Sub Point := ⟨fun p q => ⟨p.x - q.x, p.y - q.y⟩⟩

@[simp] theorem zero_x : (0 : Point).x = 0 := rfl
@[simp] theorem zero_y : (0 : Point).y = 0 := rfl
@[simp] theorem add_x (p q : Point) : (p + q).x = p.x + q.x := rfl
@[simp] theorem add_y (p q : Point) : (p + q).y = p.y + q.y := rfl
@[simp] theorem sub_x (p q : Point) : (p - q).x = p.x - q.x := rfl
@[simp] theorem sub_y (p q : Point) : (p - q).y = p.y - q.y := rfl

theorem ext_xy {p q : Point} (hx : p.x = q.x) (hy : p.y = q.y) : p = q := by
  cases p
  cases q
  simp_all

@[simp] theorem sub_zero (p : Point) : p - 0 = p :=
  ext_xy (Int.sub_zero p.x) (Int.sub_zero p.y)

theorem sub_add (p q r : Point) : p - (q + r) = p - q - r :=
  ext_xy (Int.sub_sub p.x q.x r.x).symm (Int.sub_sub p.y q.y r.y).symm

end Point

theorem Rect.mem_translated {r : Rect} {p q : Point} : q ∈ r.translated p ↔ q - p ∈ r := by
  simp only [Rect.mem_iff, Rect.translated, Point.sub_x, Point.sub_y]
  omega

end KWin
