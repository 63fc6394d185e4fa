import Mathlib.Data.List.Nodup
import PlasmaModel.Lib.HeapOrder
import PlasmaModel.Libwayland.EventLoop

namespace Libwayland.TimerHeap

variable {h : TimerHeap} {t x c j : ℕ} {key : ℤ}

-- Every timer knows where it is in the heap, or that it is not.
structure Consistent (h : TimerHeap) : Prop where
  at_eq : ∀ {i t : ℕ}, h.data[i]? = some t → h.heapIdx t = i
  armed : ∀ t, h.heapIdx t = -1 ∨ ∃ i : ℕ, h.heapIdx t = i ∧ h.data[i]? = some t

-- The place `c` waits for the timer `x`, and all other timers know where they are.
structure Holed (h : TimerHeap) (x c : ℕ) : Prop where
  lt    : c < h.data.length
  at_eq : ∀ {i t : ℕ}, i ≠ c → h.data[i]? = some t → h.heapIdx t = i ∧ t ≠ x
  armed : ∀ t, t ≠ x → h.heapIdx t = -1 ∨ ∃ i : ℕ, i ≠ c ∧ h.heapIdx t = i ∧ h.data[i]? = some t

theorem getElem?_heapSet {i : ℕ} (hc : c < h.data.length) :
    (h.heapSet t c).data[i]? = if i = c then some t else h.data[i]? := by
  rw [heapSet, List.getElem?_set, if_pos hc]
  simp only [eq_comm]

theorem heapIdx_heapSet {t' : ℕ} : (h.heapSet t c).heapIdx t' = if t' = t then (c : ℤ) else h.heapIdx t' :=
  Function.update_apply _ _ _ _

theorem length_heapSet : (h.heapSet t c).data.length = h.data.length :=
  List.length_set

namespace Consistent

theorem mem_iff (hc : h.Consistent) : t ∈ h.data ↔ h.heapIdx t ≠ -1 := by
  constructor
  case mp =>
    intro ht
    have ⟨i, hi⟩ := List.mem_iff_getElem?.mp ht
    rw [hc.at_eq hi]
    omega
  case mpr =>
    intro ht
    have ⟨i, _, hi⟩ := (hc.armed t).resolve_left ht
    exact List.mem_of_getElem? hi

theorem nodup (hc : h.Consistent) : h.data.Nodup := by
  refine List.nodup_iff_injective_getElem.mpr fun i j hij => ?_
  have hi := hc.at_eq (List.getElem?_eq_getElem i.isLt)
  have hj := hc.at_eq (List.getElem?_eq_getElem j.isLt)
  simp only at hij
  rw [hij, hj] at hi
  exact Fin.ext (by omega)

theorem idx (hc : h.Consistent) (ht : t ∈ h.data) :
    ∃ i : ℕ, h.heapIdx t = i ∧ h.data[i]? = some t :=
  (hc.armed t).resolve_left (hc.mem_iff.mp ht)

theorem holed (hc : h.Consistent) (ht : t ∈ h.data) : h.Holed t (h.heapIdx t).toNat := by
  have ⟨i, hi, hd⟩ := hc.idx ht
  rw [hi, Int.toNat_natCast]
  have hlt := (List.getElem?_eq_some_iff.mp hd).1
  refine ⟨hlt, fun {k t'} hk hk' => ⟨hc.at_eq hk', fun heq => ?_⟩, fun t' hne => ?_⟩
  · have := hc.at_eq hk'
    rw [heq, hi] at this
    omega
  · refine (hc.armed t').imp_right fun ⟨k, hk, hk'⟩ => ⟨k, fun heq => ?_, hk, hk'⟩
    rw [heq, hd] at hk'
    exact hne (Option.some.inj hk').symm

end Consistent

namespace Holed

-- A timer that is moved to the hole leaves one where it was.
theorem move (hh : h.Holed x c) (hj : j ≠ c) (ht : h.data[j]? = some t) : (h.heapSet t c).Holed x j := by
  have ⟨hidx, hne⟩ := hh.at_eq hj ht
  refine ⟨by rw [length_heapSet]; exact (List.getElem?_eq_some_iff.mp ht).1, fun {i t'} hi hd => ?_, fun t' hx => ?_⟩
  · rw [getElem?_heapSet hh.lt] at hd
    rw [heapIdx_heapSet]
    split at hd
    case isTrue hic =>
      cases hd
      exact ⟨by rw [if_pos rfl, hic], hne⟩
    case isFalse hic =>
      have ⟨hi', hx⟩ := hh.at_eq hic hd
      refine ⟨?_, hx⟩
      rw [if_neg, hi']
      intro heq
      rw [heq, hidx] at hi'
      omega
  · rw [heapIdx_heapSet]
    simp only [getElem?_heapSet hh.lt]
    by_cases heq : t' = t
    case pos => exact .inr ⟨c, hj.symm, by rw [if_pos heq], by rw [if_pos rfl, heq]⟩
    case neg =>
      rw [if_neg heq]
      refine (hh.armed t' hx).imp_right fun ⟨i, hic, hi, hd⟩ => ⟨i, fun hij => ?_, hi, by rwa [if_neg hic]⟩
      rw [hij, ht] at hd
      exact heq (Option.some.inj hd).symm

theorem fill (hh : h.Holed x c) : (h.heapSet x c).Consistent := by
  refine ⟨fun {i t} hd => ?_, fun t => ?_⟩
  · rw [getElem?_heapSet hh.lt] at hd
    rw [heapIdx_heapSet]
    split at hd
    case isTrue hic =>
      cases hd
      rw [if_pos rfl, hic]
    case isFalse hic =>
      have ⟨hi, hx⟩ := hh.at_eq hic hd
      rw [if_neg hx, hi]
  · rw [heapIdx_heapSet]
    simp only [getElem?_heapSet hh.lt]
    by_cases heq : t = x
    case pos => exact .inr ⟨c, by rw [if_pos heq], by rw [if_pos rfl, heq]⟩
    case neg =>
      rw [if_neg heq]
      exact (hh.armed t heq).imp_right fun ⟨i, hic, hi, hd⟩ => ⟨i, hi, by rwa [if_neg hic]⟩

theorem idx (hh : h.Holed x c) (hj : j ≠ c) (ht : h.data[j]? = some t) : (h.heapIdx t).toNat = j := by
  rw [(hh.at_eq hj ht).1, Int.toNat_natCast]

end Holed

-- The same timers are in both heaps, the one that is being moved apart.
structure Sifts (h h' : TimerHeap) (x : ℕ) : Prop where
  length : h'.data.length = h.data.length
  armed  : ∀ t ≠ x, h'.heapIdx t = -1 ↔ h.heapIdx t = -1

namespace Sifts

theorem refl (h : TimerHeap) (x : ℕ) : h.Sifts h x :=
  ⟨rfl, fun _ _ => Iff.rfl⟩

theorem trans {h₁ h₂ h₃ : TimerHeap} (h : h₁.Sifts h₂ x) (h' : h₂.Sifts h₃ x) : h₁.Sifts h₃ x :=
  ⟨h'.length.trans h.length, fun t ht => (h'.armed t ht).trans (h.armed t ht)⟩

theorem heapSet (hidx : h.heapIdx t ≠ -1) : h.Sifts (h.heapSet t c) x := by
  refine ⟨length_heapSet, fun t' _ => ?_⟩
  rw [heapIdx_heapSet]
  split
  case isTrue heq =>
    rw [heq]
    exact iff_of_false (by omega) hidx
  case isFalse => exact Iff.rfl

end Sifts

theorem dueChild_spec {lchildIdx : ℕ} (hl : lchildIdx < h.data.length) :
    ∃ j, lchildIdx ≤ j ∧ h.data[j]? = some (h.dueChild lchildIdx) := by
  unfold dueChild
  simp only
  split
  case isTrue ho => exact ⟨lchildIdx + 1, by omega, by simp [List.getD_eq_getElem?_getD, ho.1]⟩
  case isFalse => exact ⟨lchildIdx, Nat.le_refl _, by simp [List.getD_eq_getElem?_getD, hl]⟩

theorem siftDownLoop_spec {fuel : ℕ} (hh : h.Holed x c) : let (h', c') := siftDownLoop key fuel h c
    h'.Holed x c' ∧ h.Sifts h' x := by
  induction fuel generalizing h c
  case zero => exact ⟨hh, .refl h x⟩
  case succ fuel ih =>
    unfold siftDownLoop
    simp only
    split
    case isTrue => exact ⟨hh, .refl h x⟩
    case isFalse hl =>
      have ⟨j, hj, hd⟩ := h.dueChild_spec (Nat.lt_of_not_le hl)
      split
      case isFalse => exact ⟨hh, .refl h x⟩
      case isTrue =>
        have hjc : j ≠ c := by omega
        have := ih (hh.move hjc hd)
        rw [hh.idx hjc hd]
        exact ⟨this.1, (Sifts.heapSet (by rw [(hh.at_eq hjc hd).1]; omega)).trans this.2⟩

-- The cursor is lower in the heap after every step, so that it gets to the bottom.
theorem siftUpLoop_spec {fuel : ℕ} (hh : h.Holed x c) : let (h', c') := siftUpLoop key fuel h c
    h'.Holed x c' ∧ h.Sifts h' x := by
  induction fuel generalizing h c
  case zero => exact ⟨hh, .refl h x⟩
  case succ fuel ih =>
    unfold siftUpLoop
    simp only
    split
    case isTrue => exact ⟨hh, .refl h x⟩
    case isFalse h0 =>
      have hlt := hh.lt
      have hd : h.data[(c - 1) / 2]? = some (h.data.getD ((c - 1) / 2) 0) := by
        rw [List.getD_eq_getElem?_getD, List.getElem?_eq_getElem (by omega)]
        rfl
      have hjc : (c - 1) / 2 ≠ c := by omega
      split
      case isFalse => exact ⟨hh, .refl h x⟩
      case isTrue =>
        have := ih (hh.move hjc hd)
        rw [hh.idx hjc hd]
        exact ⟨this.1, (Sifts.heapSet (by rw [(hh.at_eq hjc hd).1]; omega)).trans this.2⟩

section

open HeapOrder (FitsAbove FitsBelow IsChild)

-- The key of the array at a place.
def keyAt (h : TimerHeap) (i : ℕ) : ℤ :=
  h.deadline (h.data.getD i 0)

-- No timer is due before its parent.
def Ordered (h : TimerHeap) : Prop :=
  HeapOrder.Ordered h.data.length h.keyAt

theorem keyAt_eq {i : ℕ} (hd : h.data[i]? = some t) : h.keyAt i = h.deadline t := by
  rw [keyAt, List.getD_eq_getElem?_getD, hd]
  rfl

theorem keyAt_heapSet (hc : c < h.data.length) :
    (h.heapSet t c).keyAt = Function.update h.keyAt c (h.deadline t) := by
  funext i
  rw [keyAt, List.getD_eq_getElem?_getD, getElem?_heapSet hc, Function.update_apply, keyAt]
  split
  case isTrue => rfl
  case isFalse => rw [List.getD_eq_getElem?_getD]; rfl

theorem Ordered.root_le {i root : ℕ} (ho : h.Ordered) (hroot : h.data[0]? = some root) (hd : h.data[i]? = some t) :
    h.deadline root ≤ h.deadline t := by
  have := HeapOrder.Ordered.root_le ho (List.getElem?_eq_some_iff.mp hd).1
  rwa [keyAt_eq hroot, keyAt_eq hd] at this

theorem dueChild_first (hl : c * 2 + 1 < h.data.length) : ∃ j, IsChild h.data.length j c ∧
    h.data[j]? = some (h.dueChild (c * 2 + 1)) ∧ FitsAbove h.data.length h.keyAt c (h.keyAt j) := by
  unfold dueChild
  simp only
  split
  case isTrue ho =>
    refine ⟨c * 2 + 1 + 1, HeapOrder.isChild_iff.mpr ⟨ho.1, .inr rfl⟩, ?_, fun i hi => ?_⟩
    · simp [List.getD_eq_getElem?_getD, ho.1]
    · cases (HeapOrder.isChild_iff.mp hi).2 with
      | inl heq => exact heq ▸ ho.2.le
      | inr heq => exact heq ▸ le_rfl
  case isFalse ho =>
    refine ⟨c * 2 + 1, HeapOrder.isChild_iff.mpr ⟨hl, .inl rfl⟩, ?_, fun i hi => ?_⟩
    · simp [List.getD_eq_getElem?_getD, hl]
    · cases (HeapOrder.isChild_iff.mp hi).2 with
      | inl heq => exact heq ▸ le_rfl
      | inr heq => exact heq ▸ Int.not_lt.mp fun hlt => ho ⟨heq ▸ hi.lt, hlt⟩

theorem siftDownLoop_order (key : ℤ) (fuel : ℕ) (hh : h.Holed x c) (ho : HeapOrder.Holed h.data.length h.keyAt c)
    (hf : h.data.length ≤ c + fuel) : let (h', c') := siftDownLoop key fuel h c
    HeapOrder.Holed h'.data.length h'.keyAt c' ∧ FitsAbove h'.data.length h'.keyAt c' key ∧
    (FitsBelow h.keyAt c key → FitsBelow h'.keyAt c' key) ∧ h'.deadline = h.deadline := by
  induction fuel generalizing h c
  case zero =>
    have := hh.lt
    omega
  case succ fuel ih =>
    unfold siftDownLoop
    simp only
    split
    case isTrue hl =>
      refine ⟨ho, fun i hi => ?_, id, rfl⟩
      have ⟨hlt, heq⟩ := HeapOrder.isChild_iff.mp hi
      exact absurd (show i < h.data.length from hlt) (by omega)
    case isFalse hl =>
      have ⟨j, hj, hd, hfirst⟩ := h.dueChild_first (Nat.lt_of_not_le hl)
      have hjc := hj.gt
      split
      case isFalse hkey =>
        refine ⟨ho, fun i hi => ?_, id, rfl⟩
        have := hfirst i hi
        rw [keyAt_eq hd] at this
        exact (Int.not_lt.mp hkey).trans this
      case isTrue hkey =>
        have hk := keyAt_heapSet (t := h.dueChild (c * 2 + 1)) hh.lt
        have hlen := length_heapSet (h := h) (t := h.dueChild (c * 2 + 1)) (c := c)
        rw [← keyAt_eq hd] at hk hkey
        have ⟨ho', hb⟩ := ho.moveDown hj hfirst hkey.le
        rw [hh.idx hjc.ne' hd]
        have ⟨ho, ha, hb', hdl⟩ := ih (hh.move hjc.ne' hd) (by rwa [hlen, hk]) (by omega)
        exact ⟨ho, ha, fun _ => hb' (by rwa [hk]), hdl⟩

theorem siftUpLoop_order (fuel : ℕ) (hh : h.Holed x c) (ho : HeapOrder.Holed h.data.length h.keyAt c)
    (ha : FitsAbove h.data.length h.keyAt c key) (hf : c ≤ fuel) : let (h', c') := siftUpLoop key fuel h c
    HeapOrder.Holed h'.data.length h'.keyAt c' ∧ FitsAbove h'.data.length h'.keyAt c' key ∧
    FitsBelow h'.keyAt c' key ∧ h'.deadline = h.deadline := by
  induction fuel generalizing h c
  case zero => exact ⟨ho, ha, fun h0 => absurd h0 (by omega), rfl⟩
  case succ fuel ih =>
    unfold siftUpLoop
    simp only
    split
    case isTrue h0 => exact ⟨ho, ha, fun h0' => absurd h0' (by omega), rfl⟩
    case isFalse h0 =>
      have hlt := hh.lt
      have hd : h.data[HeapOrder.parent c]? = some (h.data.getD ((c - 1) / 2) 0) := by
        rw [List.getD_eq_getElem?_getD, HeapOrder.parent, List.getElem?_eq_getElem (by omega)]
        rfl
      have hpc := HeapOrder.parent_lt (Nat.pos_of_ne_zero h0)
      split
      case isFalse hkey =>
        refine ⟨ho, ha, fun _ => ?_, rfl⟩
        rw [keyAt_eq hd]
        exact Int.not_lt.mp hkey
      case isTrue hkey =>
        have hk := keyAt_heapSet (t := h.data.getD ((c - 1) / 2) 0) hh.lt
        have hlen := length_heapSet (h := h) (t := h.data.getD ((c - 1) / 2) 0) (c := c)
        rw [← keyAt_eq hd] at hk hkey
        have ⟨ho', ha'⟩ := ho.moveUp (Nat.pos_of_ne_zero h0) hlt hkey
        rw [hh.idx hpc.ne hd]
        exact ih (hh.move hpc.ne hd) (by rwa [hlen, hk]) (by rwa [hlen, hk]) (by omega)

-- Of the timer `x` at the place `c`, only what is above it in the heap may not be in order.
structure Heavy (h : TimerHeap) (x c : ℕ) : Prop where
  at_eq : h.data[c]? = some x
  holed : HeapOrder.Holed h.data.length h.keyAt c
  fits  : FitsAbove h.data.length h.keyAt c (h.deadline x)

theorem siftUp_ordered (hc : h.Consistent) (hl : h.Heavy x c) :
    (h.siftUp x).Ordered ∧ (h.siftUp x).deadline = h.deadline := by
  have hidx := hc.at_eq hl.at_eq
  have hh := hc.holed (List.mem_of_getElem? hl.at_eq)
  have hlt := (List.getElem?_eq_some_iff.mp hl.at_eq).1
  unfold siftUp
  rw [hidx, Int.toNat_natCast] at hh ⊢
  have ⟨ho, ha, hb, hd⟩ := siftUpLoop_order h.data.length hh hl.holed hl.fits (by omega)
  have hh' : let (h', c') := siftUpLoop (h.deadline x) h.data.length h c
      h'.Holed x c' := (siftUpLoop_spec hh).1
  refine ⟨?_, hd⟩
  simp only
  rw [Ordered, length_heapSet, keyAt_heapSet hh'.lt, hd]
  exact ho.fill hb ha

theorem siftDown_heavy (hc : h.Consistent) (hd : h.data[c]? = some x)
    (ho : HeapOrder.Holed h.data.length h.keyAt c) :
    (∃ c', (h.siftDown x).Heavy x c') ∧ (FitsBelow h.keyAt c (h.deadline x) → (h.siftDown x).Ordered) ∧
    (h.siftDown x).deadline = h.deadline := by
  have hidx := hc.at_eq hd
  have hh := hc.holed (List.mem_of_getElem? hd)
  have hlt := (List.getElem?_eq_some_iff.mp hd).1
  unfold siftDown
  rw [hidx, Int.toNat_natCast] at hh ⊢
  have ⟨ho', ha, hb, hdl⟩ := siftDownLoop_order (h.deadline x) h.data.length hh ho (by omega)
  have hh' : let (h', c') := siftDownLoop (h.deadline x) h.data.length h c
      h'.Holed x c' := (siftDownLoop_spec hh).1
  simp only
  generalize siftDownLoop (h.deadline x) h.data.length h c = r at ho' ha hb hdl hh' ⊢
  have hk : ∀ i < r.1.data.length, i ≠ r.2 → (r.1.heapSet x r.2).keyAt i = r.1.keyAt i := by
    intro i _ hi
    rw [keyAt_heapSet hh'.lt, Function.update_of_ne hi]
  refine ⟨⟨r.2, ?_, ?_, ?_⟩, fun hbelow => ?_, hdl⟩
  · rw [getElem?_heapSet hh'.lt, if_pos rfl]
  · rw [length_heapSet]
    exact ho'.congr le_rfl hk hh'.lt
  · have hx : (r.1.heapSet x r.2).deadline x = h.deadline x := congrFun hdl x
    rw [length_heapSet, hx]
    exact ha.congr le_rfl hk
  · rw [Ordered, length_heapSet, keyAt_heapSet hh'.lt, hdl]
    exact ho'.fill (hb hbelow) ha

end

-- What becomes of the heap when only the order of its timers changes.
structure Reorders (h h' : TimerHeap) : Prop where
  consistent : h'.Consistent
  mem        : ∀ t, t ∈ h'.data ↔ t ∈ h.data
  length     : h'.data.length = h.data.length

theorem Reorders.trans {h₁ h₂ h₃ : TimerHeap} (h : h₁.Reorders h₂) (h' : h₂.Reorders h₃) : h₁.Reorders h₃ :=
  ⟨h'.consistent, fun t => (h'.mem t).trans (h.mem t), h'.length.trans h.length⟩

theorem Sifts.reorders {h' : TimerHeap} (hc : h.Consistent) (hx : x ∈ h.data) (hs : h.Sifts h' x)
    (hh : h'.Holed x c) : h.Reorders (h'.heapSet x c) := by
  refine ⟨hh.fill, fun t => ?_, length_heapSet.trans hs.length⟩
  rw [hh.fill.mem_iff, hc.mem_iff, heapIdx_heapSet]
  by_cases heq : t = x
  case pos =>
    rw [if_pos heq, heq]
    exact iff_of_true (by omega) (hc.mem_iff.mp hx)
  case neg => rw [if_neg heq, Ne, hs.armed t heq]

theorem siftDown_spec (hc : h.Consistent) (hx : x ∈ h.data) : h.Reorders (h.siftDown x) :=
  have ⟨hh, hs⟩ := siftDownLoop_spec (hc.holed hx)
  hs.reorders hc hx hh

theorem siftUp_spec (hc : h.Consistent) (hx : x ∈ h.data) : h.Reorders (h.siftUp x) :=
  have ⟨hh, hs⟩ := siftUpLoop_spec (hc.holed hx)
  hs.reorders hc hx hh

-- The heap without the timer `x`, in the place of which the last one is going to be put.
def dropLast (h : TimerHeap) (x : ℕ) : TimerHeap :=
  { h with
    heapIdx := Function.update h.heapIdx x (-1)
    deadline := Function.update h.deadline x 0
    data := h.data.dropLast }

theorem getElem?_dropLast {k : ℕ} :
    (h.dropLast x).data[k]? = some t ↔ h.data[k]? = some t ∧ k ≠ h.data.length - 1 := by
  rw [dropLast, List.getElem?_dropLast]
  split
  case isTrue hk => exact (and_iff_left (Nat.ne_of_lt hk)).symm
  case isFalse hk =>
    refine iff_of_false nofun fun ⟨hd, hne⟩ => ?_
    have := (List.getElem?_eq_some_iff.mp hd).1
    omega

theorem heapIdx_dropLast : (h.dropLast x).heapIdx t = if t = x then -1 else h.heapIdx t :=
  Function.update_apply _ _ _ _

theorem Consistent.dropLast (hc : h.Consistent) (hlast : h.data[h.data.length - 1]? = some x) :
    (h.dropLast x).Consistent := by
  refine ⟨fun {k t} hd => ?_, fun t => ?_⟩
  · have ⟨hd, hk⟩ := getElem?_dropLast.mp hd
    have htx : t ≠ x := fun heq => hk (by have := hc.at_eq hd; rw [heq, hc.at_eq hlast] at this; omega)
    rw [heapIdx_dropLast, if_neg htx, hc.at_eq hd]
  · rw [heapIdx_dropLast]
    split
    case isTrue => exact .inl rfl
    case isFalse htx =>
      refine (hc.armed t).imp_right fun ⟨k, hk, hd⟩ => ⟨k, hk, getElem?_dropLast.mpr ⟨hd, fun heq => ?_⟩⟩
      exact htx (Option.some.inj (by rw [← hd, heq, hlast]))

theorem Consistent.holed_dropLast {last i : ℕ} (hc : h.Consistent) (hi : h.data[i]? = some x)
    (hlast : h.data[h.data.length - 1]? = some last) (hne : i ≠ h.data.length - 1) : (h.dropLast x).Holed last i := by
  have hlt := (List.getElem?_eq_some_iff.mp hi).1
  refine ⟨by rw [TimerHeap.dropLast, List.length_dropLast]; omega, fun {k t} hki hd => ?_, fun t htl => ?_⟩
  · have ⟨hd, hk⟩ := getElem?_dropLast.mp hd
    have hidx := hc.at_eq hd
    have htl : t ≠ last := fun heq => hk (by rw [heq, hc.at_eq hlast] at hidx; omega)
    have htx : t ≠ x := fun heq => hki (by rw [heq, hc.at_eq hi] at hidx; omega)
    rw [heapIdx_dropLast, if_neg htx]
    exact ⟨hidx, htl⟩
  · rw [heapIdx_dropLast]
    split
    case isTrue => exact .inl rfl
    case isFalse htx =>
      refine (hc.armed t).imp_right fun ⟨k, hk, hd⟩ => ⟨k, fun heq => ?_, hk, getElem?_dropLast.mpr ⟨hd, fun heq => ?_⟩⟩
      · exact htx (Option.some.inj (by rw [← hd, heq, hi]))
      · exact htl (Option.some.inj (by rw [← hd, heq, hlast]))

-- What remains when the timer `x` is disarmed.
structure Removes (h h' : TimerHeap) (x : ℕ) : Prop where
  consistent : h'.Consistent
  mem        : ∀ t, t ∈ h'.data ↔ t ∈ h.data ∧ t ≠ x
  length     : h'.data.length + 1 = h.data.length

theorem disarm_eq {i last : ℕ} (h : TimerHeap) (hi : h.heapIdx x = i)
    (hlast : h.data[h.data.length - 1]? = some last) :
    h.disarm x = if i = (h.dropLast x).data.length then h.dropLast x else
      siftUp (siftDown ((h.dropLast x).heapSet last i) last) last := by
  rw [disarm, hi, Int.toNat_natCast, List.getD_eq_getElem?_getD, hlast]
  rfl

theorem disarm_spec (hc : h.Consistent) (hx : x ∈ h.data) : h.Removes (h.disarm x) x := by
  have ⟨i, hi, hd⟩ := hc.idx hx
  have hlt := (List.getElem?_eq_some_iff.mp hd).1
  have hlast : h.data[h.data.length - 1]? = some (h.data.getD (h.data.length - 1) 0) := by
    rw [List.getD_eq_getElem?_getD, List.getElem?_eq_getElem (by omega)]
    rfl
  have hlen : (h.dropLast x).data.length + 1 = h.data.length := by
    rw [dropLast, List.length_dropLast]
    omega
  have hdis := h.disarm_eq hi hlast
  generalize h.data.getD (h.data.length - 1) 0 = last at hlast hdis
  rw [hdis]
  split
  case isTrue heq =>
    rw [show h.data.length - 1 = i by omega] at hlast
    have hc' := hc.dropLast (x := x) (by rw [show h.data.length - 1 = i by omega, hd])
    refine ⟨hc', fun t => ?_, hlen⟩
    rw [hc'.mem_iff, hc.mem_iff, heapIdx_dropLast]
    split
    case isTrue ht => simp [ht]
    case isFalse ht => simp [ht]
  case isFalse hne =>
    have hh := hc.holed_dropLast hd hlast (by omega)
    have hf := hh.fill
    have hl : last ∈ ((h.dropLast x).heapSet last i).data := by
      rw [hf.mem_iff, heapIdx_heapSet, if_pos rfl]
      omega
    have hs := siftDown_spec hf hl
    have hr := hs.trans (siftUp_spec hs.consistent ((hs.mem last).mpr hl))
    refine ⟨hr.consistent, fun t => ?_, by rw [hr.length, length_heapSet, hlen]⟩
    rw [hr.mem, hf.mem_iff, hc.mem_iff, heapIdx_heapSet, heapIdx_dropLast]
    have hlx : last ≠ x := fun heq => by
      have hli := hc.at_eq hlast
      rw [heq, hi] at hli
      omega
    have hli : h.heapIdx last ≠ -1 := hc.mem_iff.mp (List.mem_of_getElem? hlast)
    by_cases htl : t = last
    case pos => simp [htl, hlx, hli]
    case neg => by_cases htx : t = x <;> simp [htl, htx, hlx.symm]

-- The heap with the timer `x` at the end, before it is moved to its place.
def append (h : TimerHeap) (x : ℕ) (deadline : ℤ) : TimerHeap :=
  { h with
    heapIdx := Function.update h.heapIdx x h.data.length
    deadline := Function.update h.deadline x deadline
    data := h.data ++ [x] }

theorem Consistent.append (deadline : ℤ) (hc : h.Consistent) (hx : x ∉ h.data) :
    (h.append x deadline).Consistent := by
  unfold TimerHeap.append
  refine ⟨fun {i t} hd => ?_, fun t => ?_⟩
  · dsimp only at hd ⊢
    rw [Function.update_apply]
    rw [List.getElem?_append] at hd
    split at hd
    case isTrue hlt =>
      have ht : t ≠ x := fun heq => hx (heq ▸ List.mem_of_getElem? hd)
      rw [if_neg ht, hc.at_eq hd]
    case isFalse hge =>
      have ⟨h0, heq⟩ := List.getElem?_eq_some_iff.mp hd
      rw [List.length_singleton] at h0
      rw [if_pos (by simpa using heq.symm)]
      omega
  · dsimp only
    rw [Function.update_apply]
    by_cases heq : t = x
    case pos => exact .inr ⟨h.data.length, by rw [if_pos heq], by simp [heq]⟩
    case neg =>
      rw [if_neg heq]
      refine (hc.armed t).imp_right fun ⟨i, hi, hd⟩ => ⟨i, hi, ?_⟩
      rw [List.getElem?_append_left (List.getElem?_eq_some_iff.mp hd).1, hd]

theorem arm_spec (deadline : ℤ) (hc : h.Consistent) (hx : x ∉ h.data) : (h.arm x deadline).Consistent ∧
    ∀ t, t ∈ (h.arm x deadline).data ↔ t ∈ h.data ∨ t = x := by
  have hs := siftUp_spec (hc.append deadline hx) (x := x) (by simp [append])
  exact ⟨hs.consistent, fun t => (hs.mem t).trans (by simp [append])⟩

theorem update_spec (x : ℕ) (now msDelay : ℤ) (hc : h.Consistent) :
    (h.update x now msDelay).Consistent ∧ ∀ t, t ∈ (h.update x now msDelay).data → t ∈ h.data ∨ t = x := by
  unfold update
  simp only
  have hd (d) : Consistent { h with deadline := d } := ⟨hc.at_eq, hc.armed⟩
  have hmem (h0 : ¬h.heapIdx x = -1) : x ∈ h.data := hc.mem_iff.mpr h0
  split
  case isTrue =>
    split
    case isTrue h0 =>
      have hr := arm_spec (now + msDelay * 1000000) hc fun hx => hc.mem_iff.mp hx h0
      exact ⟨hr.1, fun t => (hr.2 t).mp⟩
    case isFalse h0 =>
      split
      case isTrue =>
        have hr := siftUp_spec (hd (Function.update h.deadline x (now + msDelay * 1000000))) (hmem h0)
        exact ⟨hr.consistent, fun t ht => .inl ((hr.mem t).mp ht)⟩
      case isFalse =>
        have hr := siftDown_spec (hd (Function.update h.deadline x (now + msDelay * 1000000))) (hmem h0)
        exact ⟨hr.consistent, fun t ht => .inl ((hr.mem t).mp ht)⟩
  case isFalse =>
    split
    case isTrue => exact ⟨hc, fun t => .inl⟩
    case isFalse h0 =>
      have hr := disarm_spec hc (hmem h0)
      exact ⟨hr.consistent, fun t ht => .inl ((hr.mem t).mp ht).1⟩

-- A timer that is updated to no delay is not in the heap.
theorem update_zero_spec {now : ℤ} (hc : h.Consistent) :
    (h.update x now 0).Consistent ∧ ∀ t, t ∈ (h.update x now 0).data ↔ t ∈ h.data ∧ t ≠ x := by
  rw [update, if_neg (by omega)]
  split
  case isTrue h0 => exact ⟨hc, fun t => (and_iff_left_of_imp fun ht heq => hc.mem_iff.mp (heq ▸ ht) h0).symm⟩
  case isFalse h0 =>
    have hr := disarm_spec hc (hc.mem_iff.mpr h0)
    exact ⟨hr.consistent, hr.mem⟩

structure TakesDue (h h' : TimerHeap) (due : List ℕ) : Prop where
  consistent : h'.Consistent
  subset     : ∀ t ∈ due, t ∈ h.data
  nodup      : due.Nodup
  mem        : ∀ t, t ∈ h'.data ↔ t ∈ h.data ∧ t ∉ due

theorem takeDueLoop_spec {now : ℤ} {fuel : ℕ} (hc : h.Consistent) :
    h.TakesDue (takeDueLoop now fuel h).2 (takeDueLoop now fuel h).1 := by
  have hnone : h.TakesDue h [] := ⟨hc, nofun, .nil, by simp⟩
  induction fuel generalizing h
  case zero => exact hnone
  case succ fuel ih =>
    unfold takeDueLoop
    split
    case h_1 => exact hnone
    case h_2 root _ hd =>
      split
      case isTrue => exact hnone
      case isFalse =>
        have hr := disarm_spec hc (x := root) (by simp [hd])
        have hs := ih hr.consistent ⟨hr.consistent, nofun, .nil, by simp⟩
        refine ⟨hs.consistent, fun t ht => ?_, ?_, fun t => ?_⟩
        · cases List.mem_cons.mp ht with
          | inl heq => simp [hd, heq]
          | inr ht => exact ((hr.mem t).mp (hs.subset t ht)).1
        · exact List.nodup_cons.mpr ⟨fun hm => ((hr.mem root).mp (hs.subset root hm)).2 rfl, hs.nodup⟩
        · rw [hs.mem, hr.mem, List.mem_cons, not_or, and_assoc]

-- There is enough fuel to take all timers that are due.
theorem takeDue_spec (now : ℤ) (hc : h.Consistent) : h.TakesDue (h.takeDue now).2 (h.takeDue now).1 :=
  takeDueLoop_spec hc

section

open HeapOrder (FitsAbove FitsBelow)

theorem keyAt_dropLast {i k : ℕ} (hc : h.Consistent) (hi : h.data[i]? = some x) (hk : k < (h.dropLast x).data.length)
    (hne : k ≠ i) : (h.dropLast x).keyAt k = h.keyAt k := by
  have hd := getElem?_dropLast.mp (List.getElem?_eq_getElem hk)
  have hx : (h.dropLast x).data[k] ≠ x := by
    intro heq
    have := hc.at_eq hd.1
    rw [heq, hc.at_eq hi] at this
    omega
  rw [keyAt_eq hd.1, keyAt_eq (List.getElem?_eq_getElem hk)]
  exact Function.update_of_ne hx _ _

theorem disarm_ordered (hc : h.Consistent) (ho : h.Ordered) (hx : x ∈ h.data) :
    (h.disarm x).Ordered ∧ (h.disarm x).deadline = Function.update h.deadline x 0 := by
  have ⟨i, hi, hd⟩ := hc.idx hx
  have hlt := (List.getElem?_eq_some_iff.mp hd).1
  have ⟨last, hlast⟩ : ∃ last, h.data[h.data.length - 1]? = some last :=
    ⟨_, List.getElem?_eq_getElem (by omega)⟩
  have hlen : (h.dropLast x).data.length + 1 = h.data.length := by
    rw [dropLast, List.length_dropLast]
    omega
  rw [h.disarm_eq hi hlast]
  split
  case isTrue heq =>
    refine ⟨fun k h0 hk => ?_, rfl⟩
    have hp := HeapOrder.parent_lt h0
    rw [keyAt_dropLast hc hd hk (by omega), keyAt_dropLast hc hd (hp.trans hk) (by omega)]
    exact ho k h0 (by omega)
  case isFalse hne =>
    have hh := hc.holed_dropLast hd hlast (by omega)
    have hl : ((h.dropLast x).heapSet last i).data[i]? = some last := by
      rw [getElem?_heapSet hh.lt, if_pos rfl]
    have hkeys : ∀ k < (h.dropLast x).data.length, k ≠ i →
        ((h.dropLast x).heapSet last i).keyAt k = h.keyAt k := by
      intro k hk hki
      rw [keyAt_heapSet hh.lt, Function.update_of_ne hki, keyAt_dropLast hc hd hk hki]
    have hholed := (HeapOrder.Ordered.holed ho hlt).congr (by omega) hkeys hh.lt
    rw [← length_heapSet] at hholed
    have ⟨⟨c, hheavy⟩, _, hdown⟩ := siftDown_heavy hh.fill hl hholed
    have hs := siftDown_spec hh.fill (List.mem_of_getElem? hl)
    have ⟨hup, hdl⟩ := siftUp_ordered hs.consistent hheavy
    exact ⟨hup, hdl.trans hdown⟩

theorem arm_ordered (deadline : ℤ) (hc : h.Consistent) (ho : h.Ordered) (hx : x ∉ h.data) :
    (h.arm x deadline).Ordered ∧ (h.arm x deadline).deadline = Function.update h.deadline x deadline := by
  have hat : (h.append x deadline).data[h.data.length]? = some x := by simp [append]
  have hlen : (h.append x deadline).data.length = h.data.length + 1 := by simp [append]
  have hkeys : ∀ k < h.data.length, (h.append x deadline).keyAt k = h.keyAt k := by
    intro k hk
    have hd : (h.append x deadline).data[k]? = some h.data[k] := by
      rw [append, List.getElem?_append_left hk, List.getElem?_eq_getElem hk]
    rw [keyAt_eq hd, keyAt_eq (List.getElem?_eq_getElem hk)]
    refine Function.update_of_ne (fun heq => hx ?_) _ _
    rw [← heq]
    exact List.getElem_mem hk
  have hnone : ∀ k, ¬HeapOrder.IsChild (h.append x deadline).data.length k h.data.length :=
    fun k hk => absurd (HeapOrder.isChild_iff.mp hk) (by omega)
  have hheavy : (h.append x deadline).Heavy x h.data.length := by
    refine ⟨hat, ⟨fun k h0 hk hkn _ => ?_, fun _ k hk => absurd hk (hnone k)⟩, fun k hk => absurd hk (hnone k)⟩
    have hp := HeapOrder.parent_lt h0
    rw [hkeys k (by omega), hkeys _ (by omega)]
    exact ho k h0 (by omega)
  exact siftUp_ordered (hc.append deadline hx) hheavy

-- The heap when the timer `x` is due at another time, before it is moved to its place.
def retime (h : TimerHeap) (x : ℕ) (deadline : ℤ) : TimerHeap :=
  { h with deadline := Function.update h.deadline x deadline }

theorem Consistent.retime (deadline : ℤ) (hc : h.Consistent) : (h.retime x deadline).Consistent :=
  ⟨hc.at_eq, hc.armed⟩

theorem keyAt_retime {k : ℕ} {deadline : ℤ} (hc : h.Consistent) (hd : h.data[c]? = some x) (hk : k < h.data.length)
    (hne : k ≠ c) : (h.retime x deadline).keyAt k = h.keyAt k := by
  have hk := List.getElem?_eq_getElem hk
  rw [keyAt_eq (h := h.retime x deadline) hk, keyAt_eq hk]
  refine Function.update_of_ne (fun heq => hne ?_) _ _
  have hkc := hc.at_eq hk
  rw [heq, hc.at_eq hd] at hkc
  omega

theorem siftUp_retime {deadline : ℤ} (hc : h.Consistent) (ho : h.Ordered) (hx : x ∈ h.data)
    (hlt : deadline < h.deadline x) : ((h.retime x deadline).siftUp x).Ordered ∧
    ((h.retime x deadline).siftUp x).deadline = Function.update h.deadline x deadline := by
  have ⟨i, _, hd⟩ := hc.idx hx
  have hi := (List.getElem?_eq_some_iff.mp hd).1
  have hkeys : ∀ k < h.data.length, k ≠ i → (h.retime x deadline).keyAt k = h.keyAt k :=
    fun k hk hne => keyAt_retime hc hd hk hne
  have hfits : FitsAbove h.data.length h.keyAt i deadline :=
    HeapOrder.Ordered.fitsAbove ho (by rw [keyAt_eq hd]; exact hlt.le)
  have hx : (h.retime x deadline).deadline x = deadline := Function.update_self _ _ _
  have hheavy : (h.retime x deadline).Heavy x i := by
    refine ⟨hd, (HeapOrder.Ordered.holed ho hi).congr le_rfl hkeys hi, ?_⟩
    rw [hx]
    exact hfits.congr le_rfl hkeys
  exact siftUp_ordered (hc.retime deadline) hheavy

theorem siftDown_retime {deadline : ℤ} (hc : h.Consistent) (ho : h.Ordered) (hx : x ∈ h.data)
    (hge : h.deadline x ≤ deadline) : ((h.retime x deadline).siftDown x).Ordered ∧
    ((h.retime x deadline).siftDown x).deadline = Function.update h.deadline x deadline := by
  have ⟨i, _, hd⟩ := hc.idx hx
  have hi := (List.getElem?_eq_some_iff.mp hd).1
  have hkeys : ∀ k < h.data.length, k ≠ i → (h.retime x deadline).keyAt k = h.keyAt k :=
    fun k hk hne => keyAt_retime hc hd hk hne
  have hfits : FitsBelow h.keyAt i deadline := HeapOrder.Ordered.fitsBelow ho hi (by rwa [keyAt_eq hd])
  have hholed := (HeapOrder.Ordered.holed ho hi).congr le_rfl hkeys hi
  have hx : (h.retime x deadline).deadline x = deadline := Function.update_self _ _ _
  have ⟨_, hdown, hdl⟩ := siftDown_heavy (hc.retime deadline) hd hholed
  refine ⟨hdown fun h0 => ?_, hdl⟩
  have hp := HeapOrder.parent_lt h0
  rw [hkeys _ (hp.trans hi) hp.ne, hx]
  exact hfits h0

-- What becomes of the heap when the timer `x` is updated.
structure Updates (h h' : TimerHeap) (x : ℕ) (now msDelay : ℤ) : Prop where
  consistent : h'.Consistent
  ordered    : h'.Ordered
  mem        : ∀ t, t ∈ h'.data ↔ if t = x then 0 < msDelay else t ∈ h.data
  deadline   : 0 < msDelay → h'.deadline x = now + msDelay * 1000000
  others     : ∀ t ≠ x, h'.deadline t = h.deadline t

theorem Reorders.updates {h' : TimerHeap} {now msDelay : ℤ} (hs : (h.retime x (now + msDelay * 1000000)).Reorders h')
    (hx : x ∈ h.data) (hpos : 0 < msDelay)
    (ho : h'.Ordered ∧ h'.deadline = Function.update h.deadline x (now + msDelay * 1000000)) :
    h.Updates h' x now msDelay := by
  refine ⟨hs.consistent, ho.1, fun t => ?_, fun _ => ?_, fun t ht => ?_⟩
  · refine (hs.mem t).trans ?_
    split
    case isTrue heq => exact iff_of_true (heq ▸ hx) hpos
    case isFalse => exact Iff.rfl
  · rw [ho.2, Function.update_self]
  · rw [ho.2, Function.update_of_ne ht]

theorem update_updates (x : ℕ) (now msDelay : ℤ) (hc : h.Consistent) (ho : h.Ordered) :
    h.Updates (h.update x now msDelay) x now msDelay := by
  have hmem (h0 : ¬h.heapIdx x = -1) : x ∈ h.data := hc.mem_iff.mpr h0
  have hnotMem (h0 : h.heapIdx x = -1) : x ∉ h.data := fun hx => hc.mem_iff.mp hx h0
  unfold update
  simp only
  split
  case isTrue hpos =>
    have hr := hc.retime (x := x) (now + msDelay * 1000000)
    split
    case isTrue h0 =>
      have ⟨hc', hm⟩ := arm_spec (now + msDelay * 1000000) hc (hnotMem h0)
      have ⟨ho', hd⟩ := arm_ordered (now + msDelay * 1000000) hc ho (hnotMem h0)
      refine ⟨hc', ho', fun t => ?_, fun _ => ?_, fun t ht => ?_⟩
      · rw [hm]
        split
        case isTrue heq => exact iff_of_true (.inr heq) hpos
        case isFalse hne => exact or_iff_left hne
      · rw [hd, Function.update_self]
      · rw [hd, Function.update_of_ne ht]
    case isFalse h0 =>
      split
      case isTrue hlt => exact (siftUp_spec hr (hmem h0)).updates (hmem h0) hpos (siftUp_retime hc ho (hmem h0) hlt)
      case isFalse hge =>
        have hge := Int.not_lt.mp hge
        exact (siftDown_spec hr (hmem h0)).updates (hmem h0) hpos (siftDown_retime hc ho (hmem h0) hge)
  case isFalse hneg =>
    split
    case isTrue h0 =>
      refine ⟨hc, ho, fun t => ?_, fun hpos => absurd hpos hneg, fun _ _ => rfl⟩
      split
      case isTrue heq => exact iff_of_false (heq ▸ hnotMem h0) hneg
      case isFalse => exact Iff.rfl
    case isFalse h0 =>
      have hr := disarm_spec hc (hmem h0)
      have ⟨ho', hd⟩ := disarm_ordered hc ho (hmem h0)
      refine ⟨hr.consistent, ho', fun t => ?_, fun hpos => absurd hpos hneg, fun t ht => ?_⟩
      · rw [hr.mem]
        split
        case isTrue heq => exact iff_of_false (fun h => h.2 heq) hneg
        case isFalse hne => exact and_iff_left hne
      · rw [hd, Function.update_of_ne ht]

-- What is taken off an ordered heap at a time.
structure TakesInOrder (h h' : TimerHeap) (now : ℤ) (due : List ℕ) : Prop where
  ordered  : h'.Ordered
  sorted   : due.Pairwise fun t t' => h.deadline t ≤ h.deadline t'
  due      : ∀ t ∈ due, h.deadline t ≤ now
  rest     : ∀ t ∈ h'.data, now < h'.deadline t
  deadline : ∀ t ∈ h'.data, h'.deadline t = h.deadline t

theorem takeDueLoop_inOrder {now : ℤ} {fuel : ℕ} (hc : h.Consistent) (ho : h.Ordered) (hf : h.data.length ≤ fuel) :
    h.TakesInOrder (takeDueLoop now fuel h).2 now (takeDueLoop now fuel h).1 := by
  induction fuel generalizing h
  case zero =>
    have hnil := List.eq_nil_of_length_eq_zero (Nat.le_zero.mp hf)
    have hnone : ∀ t ∈ h.data, now < h.deadline t := by simp [hnil]
    exact ⟨ho, .nil, nofun, hnone, fun _ _ => rfl⟩
  case succ fuel ih =>
    unfold takeDueLoop
    split
    case h_1 hd =>
      have hnone : ∀ t ∈ h.data, now < h.deadline t := by simp [hd]
      exact ⟨ho, .nil, nofun, hnone, fun _ _ => rfl⟩
    case h_2 root rest hd =>
      have hfirst : ∀ t ∈ h.data, h.deadline root ≤ h.deadline t := by
        intro t ht
        have ⟨_, _, hi⟩ := hc.idx ht
        exact ho.root_le (by rw [hd]; rfl) hi
      split
      case isTrue hlt => exact ⟨ho, .nil, nofun, fun t ht => hlt.trans_le (hfirst t ht), fun _ _ => rfl⟩
      case isFalse hge =>
        have hroot : root ∈ h.data := by simp [hd]
        have hr := disarm_spec hc hroot
        have ⟨ho', hdl⟩ := disarm_ordered hc ho hroot
        have hs := ih hr.consistent ho' (by have := hr.length; omega)
        have ht : (h.disarm root).TakesDue (takeDueLoop now fuel (h.disarm root)).2
            (takeDueLoop now fuel (h.disarm root)).1 := takeDueLoop_spec hr.consistent
        have hsame : ∀ t ∈ (h.disarm root).data, (h.disarm root).deadline t = h.deadline t := by
          intro t ht
          rw [hdl, Function.update_of_ne ((hr.mem t).mp ht).2]
        have hdue : ∀ t ∈ (takeDueLoop now fuel (h.disarm root)).1, (h.disarm root).deadline t = h.deadline t :=
          fun t hm => hsame t (ht.subset t hm)
        refine ⟨hs.ordered, List.pairwise_cons.mpr ⟨fun t hm => ?_, ?_⟩, fun t hm => ?_, hs.rest, fun t hm => ?_⟩
        · exact hfirst t ((hr.mem t).mp (ht.subset t hm)).1
        · refine hs.sorted.imp_of_mem fun ha hb h => ?_
          rwa [hdue _ ha, hdue _ hb] at h
        · cases List.mem_cons.mp hm with
          | inl heq => exact heq ▸ Int.not_lt.mp hge
          | inr hm => exact hdue t hm ▸ hs.due t hm
        · rw [hs.deadline t hm, hsame t ((ht.mem t).mp hm).1]

theorem takeDue_inOrder (now : ℤ) (hc : h.Consistent) (ho : h.Ordered) :
    h.TakesInOrder (h.takeDue now).2 now (h.takeDue now).1 :=
  takeDueLoop_inOrder hc ho (Nat.le_refl _)

end

end Libwayland.TimerHeap
