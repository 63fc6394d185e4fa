import PlasmaModel.Region.Operations

namespace KWin

-- The points of a region are those of its rectangles.
def Region.Contains (r : Region) (p : Point) : Prop :=
  ∃ rect ∈ r.rects, p ∈ rect

instance : Membership Point Region where
  mem r p := r.Contains p

namespace Region

-- The x-spans of the band whose top edge is at `y`.
def spansAt (rects : List Rect) (y : Int) : List (Int × Int) :=
  (rects.filter (·.top = y)).map fun r => (r.left, r.right)

-- This is the representation which the documentation of the class promises.
structure Banded (rects : List Rect) : Prop where
  nonempty   : ∀ r ∈ rects, r.isEmpty = false
  sorted     : rects.Pairwise fun a b => a.top < b.top ∨ (a.top = b.top ∧ a.left < b.left)
  sameBottom : ∀ a ∈ rects, ∀ b ∈ rects, a.top = b.top → a.bottom = b.bottom
  noOverlap  : ∀ a ∈ rects, ∀ b ∈ rects, a.top < b.top → a.bottom ≤ b.top
  gap        : rects.Pairwise fun a b => a.top = b.top → a.right < b.left
  coalesced  : ∀ a ∈ rects, ∀ b ∈ rects, a.bottom = b.top → spansAt rects a.top ≠ spansAt rects b.top

structure IsBoundingRect (rects : List Rect) (bounds : Rect) : Prop where
  bounded : ∀ r ∈ rects, bounds.left ≤ r.left ∧ bounds.top ≤ r.top ∧
              r.right ≤ bounds.right ∧ r.bottom ≤ bounds.bottom
  left    : ∃ r ∈ rects, r.left = bounds.left
  top     : ∃ r ∈ rects, r.top = bounds.top
  right   : ∃ r ∈ rects, r.right = bounds.right
  bottom  : ∃ r ∈ rects, r.bottom = bounds.bottom

structure Canonical (r : Region) : Prop where
  notSingle : r.mRects.length ≠ 1
  banded    : Banded r.rects
  bounds    : IsBoundingRect r.rects r.mBounds

def WellFormed (r : Region) : Prop :=
  r.isEmpty ∨ r.Canonical

instance (rects : List Rect) : Decidable (Banded rects) :=
  decidable_of_iff
    ((∀ r ∈ rects, r.isEmpty = false) ∧
      (rects.Pairwise fun a b => a.top < b.top ∨ (a.top = b.top ∧ a.left < b.left)) ∧
      (∀ a ∈ rects, ∀ b ∈ rects, a.top = b.top → a.bottom = b.bottom) ∧
      (∀ a ∈ rects, ∀ b ∈ rects, a.top < b.top → a.bottom ≤ b.top) ∧
      (rects.Pairwise fun a b => a.top = b.top → a.right < b.left) ∧
      (∀ a ∈ rects, ∀ b ∈ rects, a.bottom = b.top → spansAt rects a.top ≠ spansAt rects b.top))
    ⟨fun ⟨h₁, h₂, h₃, h₄, h₅, h₆⟩ => ⟨h₁, h₂, h₃, h₄, h₅, h₆⟩,
     fun ⟨h₁, h₂, h₃, h₄, h₅, h₆⟩ => ⟨h₁, h₂, h₃, h₄, h₅, h₆⟩⟩

instance (rects : List Rect) (bounds : Rect) : Decidable (IsBoundingRect rects bounds) :=
  decidable_of_iff
    ((∀ r ∈ rects, bounds.left ≤ r.left ∧ bounds.top ≤ r.top ∧
        r.right ≤ bounds.right ∧ r.bottom ≤ bounds.bottom) ∧
      (∃ r ∈ rects, r.left = bounds.left) ∧ (∃ r ∈ rects, r.top = bounds.top) ∧
      (∃ r ∈ rects, r.right = bounds.right) ∧ (∃ r ∈ rects, r.bottom = bounds.bottom))
    ⟨fun ⟨h₁, h₂, h₃, h₄, h₅⟩ => ⟨h₁, h₂, h₃, h₄, h₅⟩,
     fun ⟨h₁, h₂, h₃, h₄, h₅⟩ => ⟨h₁, h₂, h₃, h₄, h₅⟩⟩

instance (r : Region) : Decidable r.Canonical :=
  decidable_of_iff (r.mRects.length ≠ 1 ∧ Banded r.rects ∧ IsBoundingRect r.rects r.mBounds)
    ⟨fun ⟨h₁, h₂, h₃⟩ => ⟨h₁, h₂, h₃⟩, fun ⟨h₁, h₂, h₃⟩ => ⟨h₁, h₂, h₃⟩⟩

instance (r : Region) : Decidable r.WellFormed :=
  inferInstanceAs <| Decidable (_ ∨ _)

-- The region which the documentation of the class draws.
example : WellFormed {
    mBounds := ⟨0, 0, 40, 30⟩
    mRects := [⟨0, 0, 15, 10⟩, ⟨0, 10, 15, 20⟩, ⟨25, 10, 40, 20⟩, ⟨25, 20, 40, 30⟩]
  } := by
  decide

variable {r : Region} {rects : List Rect} {p : Point}

theorem mem_iff : p ∈ r ↔ ∃ rect ∈ r.rects, p ∈ rect :=
  Iff.rfl

@[simp]
theorem rects_of_isEmpty (h : r.isEmpty) : r.rects = [] := by
  simp [rects, h]

theorem not_mem_of_isEmpty (h : r.isEmpty) : p ∉ r := by
  simp [mem_iff, h]

theorem WellFormed.canonical (h : r.WellFormed) (hn : r.isEmpty = false) : r.Canonical :=
  h.resolve_left (by simp [hn])

theorem Banded.sublist (b : Banded rects) {rects' : List Rect} (h : rects'.Sublist rects)
    (hs : ∀ a ∈ rects', spansAt rects' a.top = spansAt rects a.top) : Banded rects' where
  nonempty   := fun r hr => b.nonempty r (h.mem hr)
  sorted     := b.sorted.sublist h
  sameBottom := fun a ha c hc => b.sameBottom a (h.mem ha) c (h.mem hc)
  noOverlap  := fun a ha c hc => b.noOverlap a (h.mem ha) c (h.mem hc)
  gap        := b.gap.sublist h
  coalesced  := fun a ha c hc he => hs a ha ▸ hs c hc ▸ b.coalesced a (h.mem ha) c (h.mem hc) he

end Region
end KWin
