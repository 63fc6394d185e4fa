import PlasmaModel.Libwayland.RingBuffer

-- A ring buffer is a queue.
namespace Libwayland

theorem WL_BUFFER_DEFAULT_SIZE_POT_le_search (bufferSize bits maxSizeBits : ℕ) :
    maxSizeBits ≤ getMaxSizeBitsForSize.search bufferSize bits maxSizeBits := by
  induction bits generalizing maxSizeBits
  case zero => exact Nat.le_refl _
  case succ bits ih =>
    rw [getMaxSizeBitsForSize.search]
    split
    case isTrue => exact (Nat.le_succ _).trans (ih _)
    case isFalse => exact Nat.le_refl _

theorem getMaxSizeBitsForSize_cases (bufferSize : ℕ) : getMaxSizeBitsForSize bufferSize = 0 ∨
    WL_BUFFER_DEFAULT_SIZE_POT ≤ getMaxSizeBitsForSize bufferSize := by
  rw [getMaxSizeBitsForSize]
  split
  case isTrue => exact .inl rfl
  case isFalse => exact .inr (WL_BUFFER_DEFAULT_SIZE_POT_le_search ..)

namespace RingBuffer

variable {α : Type} [Element α] {b b' : RingBuffer α} {elements : List α} {n : ℕ}

def contents (b : RingBuffer α) : List α :=
  Ring.contents b.data b.tail b.count

-- The sizes are those of a buffer that has been allocated, which holds no more than fits.
structure Valid (b : RingBuffer α) : Prop where
  data     : b.data.length = b.capacity
  ordered  : b.tail ≤ b.head
  fits     : b.count ≤ b.capacity
  bits     : WL_BUFFER_DEFAULT_SIZE_POT ≤ b.sizeBits
  maximum  : b.maxSizeBits = 0 ∨ WL_BUFFER_DEFAULT_SIZE_POT ≤ b.maxSizeBits

theorem capacity_mul (h : WL_BUFFER_DEFAULT_SIZE_POT ≤ b.sizeBits) :
    b.capacity * Element.size α = sizePot b.sizeBits :=
  Nat.div_mul_cancel (Nat.dvd_trans Element.size_dvd (Nat.pow_dvd_pow 2 h))

theorem capacity_pos (h : WL_BUFFER_DEFAULT_SIZE_POT ≤ b.sizeBits) : 0 < b.capacity := by
  have hmul := capacity_mul h
  have hpot : 0 < sizePot b.sizeBits := Nat.two_pow_pos _
  rw [← hmul] at hpot
  exact Nat.pos_of_mul_pos_right hpot

namespace Valid

theorem pos (h : b.Valid) : 0 < b.capacity :=
  capacity_pos h.bits

theorem mask_lt (h : b.Valid) (i : ℕ) : b.mask i < b.capacity :=
  Nat.mod_lt _ h.pos

theorem length_contents (h : b.Valid) : b.contents.length = b.count :=
  Ring.length_contents (h.data ▸ h.fits)

theorem contents_eq_nil (h : b.Valid) : b.contents = [] ↔ b.size = 0 := by
  rw [← List.length_eq_zero_iff, h.length_contents, size, Nat.mul_eq_zero, or_iff_left Element.size_pos.ne']

theorem put (h : b.Valid) (hs : b.count + elements.length ≤ b.capacity) :
    (b.put elements).Valid ∧ (b.put elements).contents = b.contents ++ elements := by
  rw [RingBuffer.put]
  split
  case isTrue he => exact ⟨h, by rw [List.length_eq_zero_iff.mp he, List.append_nil]⟩
  case isFalse =>
    have hdata := h.data
    have ho := h.ordered
    have hcount : b.head + elements.length - b.tail = b.count + elements.length := by
      rw [count]
      omega
    have hhead : b.mask b.head = (b.tail + b.count) % b.data.length := by
      rw [mask, hdata, count, Nat.add_sub_cancel' ho]
    constructor
    case left =>
      constructor
      case data => exact (Ring.length_put (hdata ▸ (h.mask_lt b.head).le) (by omega)).trans hdata
      case ordered => exact ho.trans (Nat.le_add_right ..)
      case fits => exact hcount.trans_le hs
      case bits => exact h.bits
      case maximum => exact h.maximum
    case right =>
      rw [contents, count, hcount, hhead]
      exact Ring.contents_put (by omega) (hdata ▸ h.pos)

theorem copy (h : b.Valid) (hn : n ≤ b.count) : b.copy n = b.contents.take n := by
  have hdata := h.data
  have hf := h.fits
  have ht := h.mask_lt b.tail
  rw [contents, Ring.take_contents hn, ← Ring.contents_mod, hdata, RingBuffer.copy]
  split
  case isTrue hzero => rw [hzero, Ring.contents_zero]
  case isFalse =>
    dsimp only
    split
    case isTrue hle => exact (Ring.contents_eq_drop (hdata ▸ hle)).symm
    case isFalse hgt =>
      rw [mask] at ht hgt ⊢
      rw [Ring.contents_eq_wrapped (by omega) (by omega) (by omega), hdata, List.take_of_length_le]
      rw [List.length_drop, hdata]

-- The vectors reach from the tail to the head, around the end if need be.
theorem getIov_cases (h : b.Valid) (hne : b.count ≠ 0) : let tail := b.mask b.tail
    tail + b.count ≤ b.capacity ∧ b.getIov = [{ base := tail, len := b.count }] ∨
    b.capacity < tail + b.count ∧ b.getIov = [{ base := tail, len := b.capacity - tail },
      { base := 0, len := b.count - (b.capacity - tail) }] := by
  have hf := h.fits
  have ht := h.mask_lt b.tail
  have hh : b.mask b.head = (b.mask b.tail + b.count) % b.capacity := by
    rw [mask, mask, Nat.mod_add_mod, count, Nat.add_sub_cancel' h.ordered]
  rw [getIov, hh, Ring.mod_of_lt_two_mul (show b.mask b.tail + b.count < 2 * b.capacity by omega)]
  generalize b.mask b.tail = tail at ht
  by_cases hlt : tail + b.count < b.capacity
  case pos =>
    simp only [if_pos hlt, if_pos (show tail < tail + b.count by omega), Nat.add_sub_cancel_left]
    exact .inl ⟨hlt.le, trivial⟩
  case neg =>
    simp only [if_neg hlt, if_neg (show ¬tail < tail + b.count - b.capacity by omega)]
    split
    case isTrue hzero =>
      rw [show b.capacity - tail = b.count by omega]
      exact .inl ⟨by omega, rfl⟩
    case isFalse =>
      rw [show b.count - (b.capacity - tail) = tail + b.count - b.capacity by omega]
      exact .inr ⟨by omega, rfl⟩

theorem sum_getIov (h : b.Valid) (hne : b.count ≠ 0) : (b.getIov.map IoVec.len).sum = b.count := by
  have ht := h.mask_lt b.tail
  cases h.getIov_cases hne with
  | inl hiov => rw [hiov.2]; rfl
  | inr hiov =>
    rw [hiov.2]
    simp only [List.map_cons, List.map_nil, List.sum_cons, List.sum_nil]
    omega

theorem gather_getIov (h : b.Valid) (hne : b.count ≠ 0) : b.gather b.getIov = b.contents := by
  have hdata := h.data
  have hf := h.fits
  have ht := h.mask_lt b.tail
  have hcontents : b.contents = Ring.contents b.data (b.mask b.tail) b.count := by
    rw [contents, mask, ← hdata, Ring.contents_mod]
  rw [hcontents]
  cases h.getIov_cases hne with
  | inl hiov =>
    rw [hiov.2, Ring.contents_eq_drop (hdata ▸ hiov.1)]
    exact List.append_nil _
  | inr hiov =>
    rw [hiov.2, Ring.contents_eq_wrapped (by omega) (by omega) (by omega), hdata, gather]
    simp only [List.flatMap_cons, List.flatMap_nil, List.append_nil, List.drop_zero]
    rw [List.take_of_length_le]
    rw [List.length_drop, hdata]

theorem consume (h : b.Valid) (hn : n ≤ b.count) : ({ b with tail := b.tail + n } : RingBuffer α).Valid ∧
    ({ b with tail := b.tail + n } : RingBuffer α).contents = b.contents.drop n := by
  have hcount : b.head - (b.tail + n) = b.count - n := by
    rw [count]
    omega
  have hle : b.tail + n ≤ b.head := by
    rw [count] at hn
    have := h.ordered
    omega
  constructor
  case left =>
    constructor
    case data => exact h.data
    case ordered => exact hle
    case fits => exact hcount.trans_le ((Nat.sub_le ..).trans h.fits)
    case bits => exact h.bits
    case maximum => exact h.maximum
  case right =>
    rw [contents, contents, count, hcount, Ring.drop_contents (h.data ▸ h.fits)]

theorem allocate {sizeBits : ℕ} (h : b.Valid) (hbits : WL_BUFFER_DEFAULT_SIZE_POT ≤ sizeBits)
    (hs : b.size ≤ sizePot sizeBits) : (b.allocate sizeBits).Valid ∧ (b.allocate sizeBits).contents = b.contents := by
  have hcapacity : (b.allocate sizeBits).capacity = sizePot sizeBits / Element.size α := rfl
  have hfits : b.count ≤ sizePot sizeBits / Element.size α := (Nat.le_div_iff_mul_le Element.size_pos).mpr hs
  have hcopy : b.copy b.count = b.contents := by
    rw [h.copy le_rfl, List.take_of_length_le h.length_contents.le]
  have hlength : 0 + b.contents.length ≤ (List.replicate (sizePot sizeBits / Element.size α)
      (Element.zero : α)).length := by
    rw [List.length_replicate, h.length_contents, Nat.zero_add]
    exact hfits
  constructor
  case left =>
    constructor
    case data =>
      rw [hcapacity, RingBuffer.allocate, hcopy]
      exact (Ring.length_overwrite hlength).trans (List.length_replicate ..)
    case ordered => exact Nat.zero_le _
    case fits => exact hfits
    case bits => exact hbits
    case maximum => exact h.maximum
  case right =>
    have hcount : (b.allocate sizeBits).count = b.count := rfl
    rw [contents, hcount, ← h.length_contents, RingBuffer.allocate, hcopy]
    dsimp only
    rw [Ring.contents_eq_drop, List.drop_zero, Ring.overwrite, List.take_zero, List.nil_append, List.take_left]
    rwa [Ring.length_overwrite hlength]

theorem getBitsForSize_le (h : b.Valid) (netSize : ℕ) : WL_BUFFER_DEFAULT_SIZE_POT ≤ b.getBitsForSize netSize := by
  rw [getBitsForSize]
  split
  case isTrue hmax => exact h.maximum.resolve_left hmax.1.ne'
  case isFalse => exact le_max_right ..

-- The buffer keeps what it holds and has room for that much more.
theorem ensureSpace (h : b.Valid) (he : b.ensureSpace n = some b') : b'.Valid ∧ b'.contents = b.contents ∧
    b'.maxSizeBits = b.maxSizeBits ∧ b.size + n ≤ sizePot b'.sizeBits := by
  rw [RingBuffer.ensureSpace] at he
  split at he
  case isTrue => cases he
  case isFalse hle =>
    split at he
    case isTrue heq =>
      cases he
      exact ⟨h, rfl, rfl, heq ▸ not_lt.mp hle⟩
    case isFalse =>
      cases he
      have ⟨hvalid, hcontents⟩ := h.allocate (h.getBitsForSize_le (b.size + n)) ((Nat.le_add_right ..).trans (not_lt.mp hle))
      exact ⟨hvalid, hcontents, rfl, not_lt.mp hle⟩

theorem count_eq (h : b.Valid) (h' : b'.Valid) (hc : b'.contents = b.contents) : b'.count = b.count := by
  rw [← h.length_contents, ← h'.length_contents, hc]

-- Elements that there is room for can be put.
theorem ensureSpace_put (h : b.Valid) (he : b.ensureSpace (elements.length * Element.size α) = some b') :
    (b'.put elements).Valid ∧ (b'.put elements).contents = b.contents ++ elements := by
  have ⟨hvalid, hcontents, _, hroom⟩ := h.ensureSpace he
  rw [← hcontents]
  refine hvalid.put ?_
  rw [h.count_eq hvalid hcontents, capacity, Nat.le_div_iff_mul_le Element.size_pos, Nat.add_mul]
  exact hroom

theorem setMaxSizeBits (h : b.Valid) (bufferSize : ℕ) :
    (b.setMaxSizeBits (getMaxSizeBitsForSize bufferSize)).Valid ∧
    (b.setMaxSizeBits (getMaxSizeBitsForSize bufferSize)).contents = b.contents := by
  have hset : ({ b with maxSizeBits := getMaxSizeBitsForSize bufferSize } : RingBuffer α).Valid :=
    { data := h.data, ordered := h.ordered, fits := h.fits, bits := h.bits, maximum := getMaxSizeBitsForSize_cases bufferSize }
  rw [RingBuffer.setMaxSizeBits]
  generalize he : ({ b with maxSizeBits := getMaxSizeBitsForSize bufferSize } : RingBuffer α).ensureSpace 0 = ensured
  cases ensured with
  | none => exact ⟨hset, rfl⟩
  | some b' =>
    have ⟨hvalid, hcontents, _⟩ := hset.ensureSpace he
    exact ⟨hvalid, hcontents⟩

end Valid

-- Before the first allocation there are no data.
theorem setMaxSizeBits_empty (bufferSize : ℕ) :
    (({} : RingBuffer α).setMaxSizeBits (getMaxSizeBitsForSize bufferSize)).Valid ∧
    (({} : RingBuffer α).setMaxSizeBits (getMaxSizeBitsForSize bufferSize)).contents = [] := by
  have hmaximum := getMaxSizeBitsForSize_cases bufferSize
  have hbits : ({ maxSizeBits := getMaxSizeBitsForSize bufferSize } : RingBuffer α).getBitsForSize 0 =
      WL_BUFFER_DEFAULT_SIZE_POT := by
    rw [getBitsForSize, if_neg]
    · rfl
    · exact fun ⟨hpos, hlt⟩ => hmaximum.elim hpos.ne' fun hle => Nat.not_lt.mpr hle hlt
  have hensure : ({ maxSizeBits := getMaxSizeBitsForSize bufferSize } : RingBuffer α).ensureSpace 0 = some
      (({ maxSizeBits := getMaxSizeBitsForSize bufferSize } : RingBuffer α).allocate WL_BUFFER_DEFAULT_SIZE_POT) := by
    simp [ensureSpace, size, count, hbits, WL_BUFFER_DEFAULT_SIZE_POT]
  rw [setMaxSizeBits, hensure, Option.getD_some]
  constructor
  case left =>
    constructor
    case data => simp [allocate, copy, count, Ring.overwrite, capacity]
    case ordered => exact Nat.le_refl _
    case fits => exact Nat.zero_le _
    case bits => exact Nat.le_refl _
    case maximum => exact hmaximum
  case right => exact Ring.contents_zero

theorem close_eq {b : RingBuffer Fd} (h : b.Valid) {count p : ℕ} (hp : p ≤ b.capacity) (hc : count ≤ b.capacity) :
    closeFds.close b count p = Ring.contents b.data p count := by
  have hdata := h.data
  induction count generalizing p
  case zero => exact Ring.contents_zero.symm
  case succ count ih =>
    have hmod : Ring.contents b.data p (count + 1) =
        Ring.contents b.data (if b.capacity ≤ p then 0 else p) (count + 1) := by
      split
      case isTrue hle => rw [← Ring.contents_mod, hdata, le_antisymm hp hle, Nat.mod_self]
      case isFalse => rfl
    have hlt : (if b.capacity ≤ p then 0 else p) < b.capacity := by
      split <;> omega
    rw [hmod, closeFds.close, Ring.contents_succ (hdata ▸ hlt) (hdata ▸ hc), ih hlt (by omega)]

theorem Valid.closeFds {b : RingBuffer Fd} (h : b.Valid) {max : ℕ} (hm : 0 < max) :
    (b.closeFds max).1.Valid ∧ (b.closeFds max).1.contents = b.contents.drop max ∧
    (b.closeFds max).2 = b.contents.take max := by
  have hlength := h.length_contents
  rw [RingBuffer.closeFds]
  by_cases hlt : max < b.count
  case pos =>
    rw [if_pos ⟨hm, hlt⟩]
    have ⟨hvalid, hcontents⟩ := h.consume hlt.le
    refine ⟨hvalid, hcontents, ?_⟩
    rw [close_eq h (h.mask_lt _).le (hlt.le.trans h.fits), mask, ← h.data, Ring.contents_mod,
      ← Ring.take_contents hlt.le, contents]
  case neg =>
    rw [if_neg fun hn => hlt hn.2]
    have ⟨hvalid, hcontents⟩ := h.consume (Nat.le_refl b.count)
    refine ⟨hvalid, ?_, ?_⟩
    · rw [hcontents, List.drop_of_length_le hlength.le, List.drop_of_length_le (hlength ▸ not_lt.mp hlt)]
    · rw [close_eq h (h.mask_lt _).le h.fits, mask, ← h.data, Ring.contents_mod,
        List.take_of_length_le (hlength ▸ not_lt.mp hlt), contents]

end RingBuffer

end Libwayland
