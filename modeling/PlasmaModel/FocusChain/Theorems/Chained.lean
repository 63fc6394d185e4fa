import Mathlib.Data.List.Rotate
import PlasmaModel.FocusChain.Chains

namespace KWin

variable {windows : FocusWindows} {window reference a i k n : Nat} {change : FocusChange} {chain chain' mru : List Nat}

theorem FocusWindows.belongToSameApplication_self (h : windows.isDeleted a = false) :
    windows.belongToSameApplication a a = true := by
  rw [belongToSameApplication]
  split
  case h_1 hkind =>
    have ⟨client, hclient⟩ := Option.isSome_iff_exists.mp (windows.surface a hkind h)
    simp [hclient]
  case h_2 => simp

namespace FocusChain

variable {s s' : FocusChain} {event : FocusEvent}

-- The window has joined the chain or has moved in it.
def Touched (windows : FocusWindows) (window : Nat) (chain chain' : List Nat) : Prop :=
  if windows.isDeleted window then chain' = chain else chain'.Perm (window :: removeAll window chain)

theorem mem_removeAll : a ∈ removeAll window chain ↔ a ∈ chain ∧ a ≠ window := by
  simp [removeAll]

theorem Touched.nodup (h : Touched windows window chain chain') (hn : chain.Nodup) : chain'.Nodup := by
  rw [Touched] at h
  split at h
  case isTrue => exact h ▸ hn
  case isFalse =>
    have hnot : window ∉ removeAll window chain := fun hmem => (mem_removeAll.mp hmem).2 rfl
    exact h.nodup_iff.mpr (List.nodup_cons.mpr ⟨hnot, hn.filter _⟩)

theorem Touched.mem_iff (h : Touched windows window chain chain') :
    a ∈ chain' ↔ windows.isDeleted window = false ∧ a = window ∨ a ∈ chain := by
  rw [Touched] at h
  split at h
  case isTrue hd => simp [h, hd]
  case isFalse hd =>
    rw [h.mem_iff, List.mem_cons, mem_removeAll]
    by_cases ha : a = window <;> simp [ha, hd]

theorem touched_makeFirst : Touched windows window chain (makeFirstInChain windows window chain) := by
  rw [Touched, makeFirstInChain]
  split
  case isTrue => rfl
  case isFalse => exact List.perm_append_singleton _ _

theorem touched_makeLast : Touched windows window chain (makeLastInChain windows window chain) := by
  rw [Touched, makeLastInChain]
  split
  case isTrue => rfl
  case isFalse => exact .refl _

theorem touched_insert (hn : chain.Nodup) :
    Touched windows window chain (s.insertWindowIntoChain windows window chain) := by
  rw [Touched, insertWindowIntoChain]
  split
  case isTrue => rfl
  case isFalse =>
    split
    case isTrue hmem =>
      have hperm := List.perm_cons_erase hmem
      rw [hn.erase_eq_filter] at hperm
      simpa [removeAll, bne, BEq.beq] using hperm
    case isFalse hmem =>
      have hsame : removeAll window chain = chain :=
        List.filter_eq_self.mpr fun a ha => by simpa using fun heq : a = window => hmem (heq ▸ ha)
      rw [hsame]
      split
      case isTrue => exact List.perm_insertIdx window chain (Nat.sub_le _ _)
      case isFalse => exact List.perm_append_singleton _ _

theorem touched_update (hn : chain.Nodup) :
    Touched windows window chain (s.updateWindowInChain windows window change chain) := by
  cases change with
  | makeFirst => exact touched_makeFirst
  | makeLast => exact touched_makeLast
  | update => exact touched_insert hn

theorem exists_positionOf {positions : List Nat} (hr : reference ∈ chain) (hlive : windows.isDeleted reference = false)
    (hp : ∀ i, i ∈ positions ↔ i < chain.length) :
    ∃ i < chain.length, positionOf windows reference chain positions = some i := by
  have ⟨i, hi⟩ := List.mem_iff_getElem?.mp hr
  have hlt := (List.getElem?_eq_some_iff.mp hi).1
  have hsome : (positionOf windows reference chain positions).isSome := by
    rw [positionOf, List.find?_isSome]
    exact ⟨i, (hp i).mpr hlt, by simp [hi, FocusWindows.belongToSameApplication_self hlive]⟩
  have ⟨j, hj⟩ := Option.isSome_iff_exists.mp hsome
  exact ⟨j, (hp j).mp (List.mem_of_find?_eq_some hj), hj⟩

section

variable (hd : windows.isDeleted window = false) (hlive : windows.isDeleted reference = false)
  (hne : reference ≠ window)
include hd hlive hne

theorem touched_moveAfter (hr : reference ∈ chain) :
    Touched windows window chain (moveAfterWindowInChain windows window reference chain) := by
  have hmem : reference ∈ removeAll window chain := mem_removeAll.mpr ⟨hr, hne⟩
  have hidx := List.idxOf_lt_length_of_mem hmem
  rw [Touched, if_neg (by simp [hd]), moveAfterWindowInChain, if_neg (by simp [hd]), if_neg (by simp [hr])]
  dsimp only
  split
  case isTrue => exact List.perm_insertIdx _ _ (Nat.le_of_lt hidx)
  case isFalse =>
    have ⟨i, hi, hpos⟩ := exists_positionOf hmem hlive fun _ => List.mem_range
    rw [hpos]
    exact List.perm_insertIdx _ _ (Nat.le_of_lt hi)

theorem touched_moveBefore (hr : reference ∈ chain) :
    Touched windows window chain (moveBeforeWindowInChain windows window reference chain) := by
  have hmem : reference ∈ removeAll window chain := mem_removeAll.mpr ⟨hr, hne⟩
  have hidx := List.idxOf_lt_length_of_mem hmem
  rw [Touched, if_neg (by simp [hd]), moveBeforeWindowInChain, if_neg (by simp [hd]), if_neg (by simp [hr])]
  dsimp only
  split
  case isTrue => exact List.perm_insertIdx _ _ hidx
  case isFalse =>
    have ⟨i, hi, hpos⟩ := exists_positionOf hmem hlive fun _ => List.mem_reverse.trans List.mem_range
    rw [hpos]
    exact List.perm_insertIdx _ _ hi

end

-- The chains have no duplicates, and those of the desktops have only windows that the other one has.
structure Chained (s : FocusChain) : Prop where
  nodup  : s.mostRecentlyUsed.Nodup
  chains : ∀ desktop chain, s.desktopFocusChains desktop = some chain → chain.Nodup ∧ chain ⊆ s.mostRecentlyUsed

theorem Chained.mapChains (h : s.Chained) {f : Nat → List Nat → List Nat} (hn : mru.Nodup)
    (hf : ∀ desktop chain, chain.Nodup → chain ⊆ s.mostRecentlyUsed → (f desktop chain).Nodup ∧ f desktop chain ⊆ mru) :
    Chained { s with desktopFocusChains := s.mapChains f, mostRecentlyUsed := mru } where
  nodup := hn
  chains desktop chain hc := by
    have ⟨old, hold, heq⟩ := Option.map_eq_some_iff.mp hc
    have ⟨hn, hsub⟩ := h.chains desktop old hold
    exact heq ▸ hf desktop old hn hsub

theorem Chained.remove (h : s.Chained) (window : Nat) : (s.remove window).Chained := by
  refine h.mapChains (h.nodup.filter _) fun desktop chain hn hsub => ⟨hn.filter _, fun a ha => ?_⟩
  have ⟨hmem, hne⟩ := mem_removeAll.mp ha
  exact mem_removeAll.mpr ⟨hsub hmem, hne⟩

theorem Touched.subset (h : Touched windows window chain chain') (hm : Touched windows window s.mostRecentlyUsed mru)
    (hsub : chain ⊆ s.mostRecentlyUsed) : chain' ⊆ mru :=
  fun _ ha => hm.mem_iff.mpr ((h.mem_iff.mp ha).imp_right (hsub ·))

theorem Chained.update (h : s.Chained) (windows : FocusWindows) (window : Nat) (change : FocusChange) :
    (s.update windows window change).Chained := by
  rw [FocusChain.update]
  split
  case isTrue => exact h.remove window
  case isFalse =>
    have hm : Touched windows window s.mostRecentlyUsed
        (s.updateWindowInChain windows window change s.mostRecentlyUsed) := touched_update h.nodup
    have hnew {chain chain'} (hn : chain.Nodup) (hsub : chain ⊆ s.mostRecentlyUsed)
        (ht : Touched windows window chain chain') :
        chain'.Nodup ∧ chain' ⊆ s.updateWindowInChain windows window change s.mostRecentlyUsed :=
      ⟨ht.nodup hn, ht.subset hm hsub⟩
    split
    case isTrue =>
      refine h.mapChains (hm.nodup h.nodup) fun desktop chain hn hsub => ?_
      rw [updateOnAllDesktops]
      split
      case isTrue =>
        split
        case isTrue => exact hnew hn hsub touched_makeFirst
        case isFalse => exact hnew hn hsub touched_makeLast
      case isFalse => exact hnew hn hsub (touched_insert hn)
    case isFalse =>
      refine h.mapChains (hm.nodup h.nodup) fun desktop chain hn hsub => ?_
      rw [updateOnDesktop]
      split
      case isTrue => exact hnew hn hsub (touched_update hn)
      case isFalse =>
        refine ⟨hn.filter _, fun a ha => hm.mem_iff.mpr (.inr (hsub (mem_removeAll.mp ha).1))⟩

theorem Chained.moveWindow (h : s.Chained) {moveInChain : List Nat → List Nat}
    (hmove : ∀ chain, reference ∉ chain → moveInChain chain = chain)
    (htouched : windows.isDeleted window = false → reference ≠ window → ∀ chain, reference ∈ chain →
      Touched windows window chain (moveInChain chain)) :
    (s.moveWindow windows window reference moveInChain).Chained := by
  rw [FocusChain.moveWindow]
  split
  case isTrue => exact h
  case isFalse hd =>
    split
    case isTrue => exact h
    case isFalse =>
      split
      case isTrue => exact h
      case isFalse hne =>
        have htouched := htouched (Bool.eq_false_iff.mpr hd) hne
        have hkept : (moveInChain s.mostRecentlyUsed).Nodup ∧ s.mostRecentlyUsed ⊆ moveInChain s.mostRecentlyUsed := by
          by_cases hr : reference ∈ s.mostRecentlyUsed
          case pos => exact ⟨(htouched _ hr).nodup h.nodup, fun a ha => (htouched _ hr).mem_iff.mpr (.inr ha)⟩
          case neg => rw [hmove _ hr]; exact ⟨h.nodup, List.Subset.refl _⟩
        refine h.mapChains hkept.1 fun desktop chain hn hsub => ?_
        have hsame : chain.Nodup ∧ chain ⊆ moveInChain s.mostRecentlyUsed := ⟨hn, List.Subset.trans hsub hkept.2⟩
        split
        case isTrue =>
          by_cases hr : reference ∈ chain
          case pos => exact ⟨(htouched _ hr).nodup hn, (htouched _ hr).subset (htouched _ (hsub hr)) hsub⟩
          case neg => exact (hmove _ hr).symm ▸ hsame
        case isFalse => exact hsame

theorem Chained.moveAfterWindow (h : s.Chained) (hlive : windows.isDeleted reference = false) :
    (s.moveAfterWindow windows window reference).Chained := by
  refine h.moveWindow (fun chain hr => ?_) fun hd hne chain hr => touched_moveAfter hd hlive hne hr
  simp [moveAfterWindowInChain, hr]

theorem Chained.moveBeforeWindow (h : s.Chained) (hlive : windows.isDeleted reference = false) :
    (s.moveBeforeWindow windows window reference).Chained := by
  refine h.moveWindow (fun chain hr => ?_) fun hd hne chain hr => touched_moveBefore hd hlive hne hr
  simp [moveBeforeWindowInChain, hr]

theorem Chained.updateDesktop (h : s.Chained) (desktop : Nat) (entry : Option (List Nat))
    (he : entry = some [] ∨ entry = none) :
    Chained { s with desktopFocusChains := Function.update s.desktopFocusChains desktop entry } where
  nodup := h.nodup
  chains other chain hc := by
    dsimp only at hc
    rw [Function.update_apply] at hc
    split at hc
    case isTrue =>
      cases he with
      | inl he =>
        cases he.symm.trans hc
        exact ⟨List.nodup_nil, List.nil_subset _⟩
      | inr he => cases he.symm.trans hc
    case isFalse => exact h.chains other chain hc

theorem Chained.step (h : s.Chained) (hs : s.step event = some s') : s'.Chained := by
  cases event with
  | update windows window change => exact Option.some.inj hs ▸ h.update windows window change
  | moveAfterWindow windows window reference =>
    have ⟨hlive, hs⟩ := Option.ite_none_left_eq_some.mp hs
    exact Option.some.inj hs ▸ h.moveAfterWindow (Bool.eq_false_iff.mpr hlive)
  | moveBeforeWindow windows window reference =>
    have ⟨hlive, hs⟩ := Option.ite_none_left_eq_some.mp hs
    exact Option.some.inj hs ▸ h.moveBeforeWindow (Bool.eq_false_iff.mpr hlive)
  | remove window => exact Option.some.inj hs ▸ h.remove window
  | addDesktop desktop => exact Option.some.inj hs ▸ h.updateDesktop desktop _ (.inl rfl)
  | removeDesktop desktop => exact Option.some.inj hs ▸ h.updateDesktop desktop _ (.inr rfl)
  | setActiveWindow window => exact Option.some.inj hs ▸ ⟨h.nodup, h.chains⟩

-- The window that is reached from another one in so many steps.
def nextFrom (s : FocusChain) (window : Nat) : Nat → Option Nat
  | 0     => some window
  | k + 1 => (s.nextFrom window k).bind s.nextMostRecentlyUsed

structure Cycles (s : FocusChain) : Prop extends Chained s where
  visits  : ∀ window ∈ s.mostRecentlyUsed,
              ((List.range s.mostRecentlyUsed.length).map (s.nextFrom window)).Perm (s.mostRecentlyUsed.map some)
  returns : ∀ window ∈ s.mostRecentlyUsed, s.nextFrom window s.mostRecentlyUsed.length = some window

theorem nextMostRecentlyUsed_eq (hn : s.mostRecentlyUsed.Nodup) (hi : s.mostRecentlyUsed[i]? = some window) :
    s.nextMostRecentlyUsed window =
      s.mostRecentlyUsed[(i + s.mostRecentlyUsed.length - 1) % s.mostRecentlyUsed.length]? := by
  have ⟨hlt, hw⟩ := List.getElem?_eq_some_iff.mp hi
  have hidx : s.mostRecentlyUsed.idxOf? window = some i := by
    refine List.idxOf?_eq_some_iff.mpr ⟨hlt, hw, fun j hj heq => ?_⟩
    have := (List.Nodup.getElem_inj_iff hn).mp (heq.trans hw.symm)
    omega
  rw [nextMostRecentlyUsed, hidx]
  cases i with
  | zero =>
    dsimp only
    rw [List.getLast?_eq_getElem?, Nat.zero_add, Nat.mod_eq_of_lt (Nat.sub_one_lt_of_lt hlt)]
  | succ i =>
    have hmod : (i + 1 + s.mostRecentlyUsed.length - 1) % s.mostRecentlyUsed.length = i := by
      rw [Nat.add_right_comm, Nat.add_sub_cancel, Nat.add_mod_right, Nat.mod_eq_of_lt (Nat.lt_of_succ_lt hlt)]
    rw [hmod]

theorem nextFrom_eq (hn : s.mostRecentlyUsed.Nodup) (hi : s.mostRecentlyUsed[i]? = some window)
    (hk : k ≤ s.mostRecentlyUsed.length) :
    s.nextFrom window k = s.mostRecentlyUsed[(i + s.mostRecentlyUsed.length - k) % s.mostRecentlyUsed.length]? := by
  have hlt := (List.getElem?_eq_some_iff.mp hi).1
  induction k with
  | zero =>
    rw [nextFrom, Nat.sub_zero, Nat.add_mod_right, Nat.mod_eq_of_lt hlt, hi]
  | succ k ih =>
    have hpos : 0 < s.mostRecentlyUsed.length := Nat.zero_lt_of_lt hlt
    have hmod := Nat.mod_lt (i + s.mostRecentlyUsed.length - k) hpos
    have hget := List.getElem?_eq_getElem hmod
    rw [nextFrom, ih (Nat.le_of_succ_le hk), hget, Option.bind_some, nextMostRecentlyUsed_eq hn hget]
    congr 1
    rw [Nat.add_sub_assoc hpos, Nat.mod_add_mod, ← Nat.add_sub_assoc hpos]
    have heq : i + s.mostRecentlyUsed.length - k + s.mostRecentlyUsed.length - 1 =
        i + s.mostRecentlyUsed.length - (k + 1) + s.mostRecentlyUsed.length := by omega
    rw [heq, Nat.add_mod_right]

theorem Chained.cycles (h : s.Chained) : s.Cycles where
  toChained := h
  visits window hw := by
    have ⟨i, hi⟩ := List.mem_iff_getElem?.mp hw
    have hlt := (List.getElem?_eq_some_iff.mp hi).1
    have heq : (List.range s.mostRecentlyUsed.length).map (s.nextFrom window) =
        ((s.mostRecentlyUsed.rotate (i + 1)).reverse).map some := by
      refine List.ext_getElem (by simp) fun k hk _ => ?_
      have hk : k < s.mostRecentlyUsed.length := by simpa using hk
      rw [List.getElem_map, List.getElem_map, List.getElem_range, nextFrom_eq h.nodup hi (Nat.le_of_lt hk),
        List.getElem_reverse, List.getElem_rotate]
      have hidx : (i + s.mostRecentlyUsed.length - k) = s.mostRecentlyUsed.length - 1 - k + (i + 1) := by omega
      rw [List.getElem?_eq_getElem (Nat.mod_lt _ (Nat.zero_lt_of_lt hlt))]
      simp only [hidx, List.length_rotate]
    rw [heq]
    exact ((List.reverse_perm _).trans (List.rotate_perm _ _)).map some
  returns window hw := by
    have ⟨i, hi⟩ := List.mem_iff_getElem?.mp hw
    have hlt := (List.getElem?_eq_some_iff.mp hi).1
    rw [nextFrom_eq h.nodup hi (Nat.le_refl _), Nat.add_sub_cancel, Nat.mod_eq_of_lt hlt, hi]

theorem always_cycles (events : List FocusEvent) : Machine.Always step Cycles {} events := by
  have hstart : Chained {} := ⟨List.nodup_nil, nofun⟩
  exact Machine.Always.of_invariant events hstart Chained.cycles fun h hs => h.step hs

end FocusChain

end KWin
