import Mathlib.Data.List.InsertIdx
import PlasmaModel.VirtualDesktops.Manager

namespace KWin

namespace VirtualDesktopGrid

variable {width height x y : Nat} {desktops : List Nat}

theorem flatten_gridRows (width height : Nat) (desktops : List Nat) :
    (gridRows width height desktops).flatten = desktops.take (height * width) := by
  induction height generalizing desktops
  case zero => simp [gridRows]
  case succ height ih =>
    rw [gridRows, List.flatten_cons, ih, Nat.succ_mul, Nat.add_comm (height * width), List.take_add]

theorem at?_update (hx : x < width) (hy : y < height) :
    (update width height desktops).at? x y = desktops[y * width + x]? := by
  rw [at?, update]
  induction height generalizing y desktops
  case zero => exact absurd hy (Nat.not_lt_zero y)
  case succ height ih =>
    cases y
    case zero => simp [gridRows, hx]
    case succ y =>
      rw [gridRows, List.getElem?_cons_succ, ih (Nat.lt_of_succ_lt_succ hy), List.getElem?_drop, Nat.succ_mul]
      congr 1
      omega

end VirtualDesktopGrid

namespace VirtualDesktopManager

variable {s : VirtualDesktopManager} {desktops : List Nat} {number : Nat → Nat} {desktop i j : Nat}

def Numbered (desktops : List Nat) (number : Nat → Nat) : Prop :=
  ∀ i desktop, desktops[i]? = some desktop → number desktop = i + 1

theorem renumber_of_notMem (hd : desktop ∉ desktops) : renumber number i desktops desktop = number desktop := by
  induction desktops generalizing number i
  case nil => rfl
  case cons first desktops ih =>
    have ⟨hne, hd⟩ := List.ne_and_not_mem_of_not_mem_cons hd
    rw [renumber, ih hd, Function.update_of_ne hne]

theorem renumber_getElem? (hn : desktops.Nodup) (hd : desktops[j]? = some desktop) :
    renumber number i desktops desktop = i + j + 1 := by
  induction desktops generalizing number i j
  case nil => cases hd
  case cons first desktops ih =>
    have ⟨hfirst, hn⟩ := List.nodup_cons.mp hn
    cases j
    case zero =>
      cases hd
      rw [renumber, renumber_of_notMem hfirst, Function.update_self, Nat.add_zero]
    case succ j =>
      rw [renumber, ih hn hd]
      omega

-- The numbers of the first desktops are right already.
theorem numbered_renumber (hn : desktops.Nodup)
    (h : ∀ j desktop, j < i → desktops[j]? = some desktop → number desktop = j + 1) :
    Numbered desktops (renumber number i (desktops.drop i)) := by
  intro j desktop hd
  by_cases hj : j < i
  case pos =>
    have hnot : desktop ∉ desktops.drop i := by
      intro hmem
      have ⟨k, hk⟩ := List.mem_iff_getElem?.mp hmem
      rw [List.getElem?_drop] at hk
      have heq := (List.getElem?_inj (List.getElem?_eq_some_iff.mp hd).1 hn).mp (hd.trans hk.symm)
      omega
    rw [renumber_of_notMem hnot, h j desktop hj hd]
  case neg =>
    have hd : (desktops.drop i)[j - i]? = some desktop := by
      rw [List.getElem?_drop, ← hd]
      congr 1
      omega
    rw [renumber_getElem? (hn.sublist (List.drop_sublist i desktops)) hd]
    omega

-- The desktops have been created and have their numbers.
structure Created (s : VirtualDesktopManager) : Prop where
  nodup   : s.desktops.Nodup
  created : ∀ desktop ∈ s.desktops, desktop < s.nextDesktop
  numbers : Numbered s.desktops s.x11DesktopNumber

structure Listed (s : VirtualDesktopManager) : Prop extends Created s where
  nonempty : s.desktops ≠ []
  maximum  : s.count ≤ maximum
  rows     : 1 ≤ s.rows

-- The desktops with the rows and the grid that follow from them.
structure LaidOut (s : VirtualDesktopManager) : Prop extends Listed s where
  rows_le : s.rows ≤ s.count
  size    : s.grid.width = (s.count + s.rows - 1) / s.rows ∧ s.grid.height = s.rows
  listed  : s.grid.grid.flatten = s.desktops
  placed  : ∀ x y, x < s.grid.width → y < s.grid.height → s.grid.at? x y = s.desktops[y * s.grid.width + x]?

theorem ceil_eq {n k : Nat} (hk : 1 ≤ k) : (n / k + if 0 < n % k then 1 else 0) = (n + k - 1) / k := by
  have hdiv := Nat.div_add_mod n k
  have hmod := Nat.mod_lt n hk
  split
  case isTrue hpos =>
    have heq : n + k - 1 = (n % k - 1) + k * (n / k + 1) := by
      rw [Nat.mul_add_one]
      omega
    have hlt : n % k - 1 < k := by omega
    rw [heq, Nat.add_mul_div_left _ _ hk, Nat.div_eq_of_lt hlt, Nat.zero_add]
  case isFalse hzero =>
    have heq : n + k - 1 = (k - 1) + k * (n / k) := by omega
    have hlt : k - 1 < k := Nat.sub_one_lt_of_lt hk
    rw [heq, Nat.add_mul_div_left _ _ hk, Nat.div_eq_of_lt hlt, Nat.zero_add, Nat.add_zero]

theorem le_mul_ceil {n k : Nat} (hk : 1 ≤ k) : n ≤ k * ((n + k - 1) / k) := by
  have hdiv := Nat.div_add_mod (n + k - 1) k
  have hmod := Nat.mod_lt (n + k - 1) hk
  omega

theorem Listed.updateLayout (h : s.Listed) : s.updateLayout.LaidOut := by
  have hcount : 1 ≤ s.count := List.length_pos_iff.mpr h.nonempty
  have hrows : 1 ≤ min s.rows s.count := Nat.le_min.mpr ⟨h.rows, hcount⟩
  have hcolumns := ceil_eq (n := s.count) hrows
  exact {
    nonempty := h.nonempty
    maximum  := h.maximum
    nodup    := h.nodup
    created  := h.created
    numbers  := h.numbers
    rows     := hrows
    rows_le  := Nat.min_le_right s.rows s.count
    size     := ⟨hcolumns, rfl⟩
    listed   := by
      refine (VirtualDesktopGrid.flatten_gridRows _ _ s.desktops).trans (List.take_of_length_le ?_)
      rw [hcolumns]
      exact le_mul_ceil hrows
    placed x y hx hy := VirtualDesktopGrid.at?_update hx hy }

theorem Created.notMem (h : s.Created) : s.nextDesktop ∉ s.desktops :=
  fun hmem => Nat.lt_irrefl _ (h.created _ hmem)

theorem LaidOut.createVirtualDesktop (h : s.LaidOut) (position : Nat) (newId : String) :
    (s.createVirtualDesktop position newId).LaidOut := by
  rw [VirtualDesktopManager.createVirtualDesktop]
  split
  case isTrue => exact h
  case isFalse hcount =>
    have hle : min position s.count ≤ s.desktops.length := Nat.min_le_right position s.count
    have hperm := List.perm_insertIdx s.nextDesktop s.desktops hle
    have hnodup : (s.desktops.insertIdx (min position s.count) s.nextDesktop).Nodup :=
      hperm.nodup_iff.mpr (List.nodup_cons.mpr ⟨h.notMem, h.nodup⟩)
    exact Listed.updateLayout {
      nonempty := List.ne_nil_of_mem (hperm.mem_iff.mpr List.mem_cons_self)
      maximum  := by
        rw [count, hperm.length_eq]
        exact Nat.lt_of_le_of_ne h.maximum hcount
      nodup    := hnodup
      created desktop hd := by
        cases List.mem_cons.mp (hperm.mem_iff.mp hd)
        case inl heq => exact heq ▸ Nat.lt_succ_self _
        case inr hd => exact Nat.lt_succ_of_lt (h.created desktop hd)
      numbers  := by
        refine numbered_renumber hnodup fun j desktop hj hd => ?_
        cases Nat.lt_succ_iff_lt_or_eq.mp hj
        case inl hj =>
          rw [List.getElem?_insertIdx_of_lt hj] at hd
          have hne : desktop ≠ s.nextDesktop := fun heq => h.notMem (heq ▸ List.mem_of_getElem? hd)
          rw [Function.update_of_ne hne, h.numbers j desktop hd]
        case inr hj =>
          rw [hj, List.getElem?_insertIdx_self, if_pos hle] at hd
          cases hd
          rw [Function.update_self, hj]
      rows     := h.rows }

theorem LaidOut.removeVirtualDesktop (h : s.LaidOut) (hd : desktop ∈ s.desktops) :
    (s.removeVirtualDesktop desktop).LaidOut := by
  rw [VirtualDesktopManager.removeVirtualDesktop]
  split
  case isTrue => exact h
  case isFalse hcount =>
    have hsub := List.eraseIdx_sublist s.desktops (s.desktops.idxOf desktop)
    have hlen := List.length_eraseIdx_of_lt (List.idxOf_lt_length_of_mem hd)
    have hpos : 1 ≤ s.count := List.length_pos_iff.mpr h.nonempty
    exact Listed.updateLayout {
      nonempty := List.length_pos_iff.mp (hlen ▸ Nat.sub_pos_of_lt (Nat.lt_of_le_of_ne hpos (Ne.symm hcount)))
      maximum  := Nat.le_trans hsub.length_le h.maximum
      nodup    := h.nodup.sublist hsub
      created desktop hd := h.created desktop (hsub.subset hd)
      numbers  := numbered_renumber (h.nodup.sublist hsub) fun j desktop hj hd =>
        h.numbers j desktop (List.getElem?_eraseIdx_of_lt hj ▸ hd)
      rows     := h.rows }

theorem perm_moved {position : Int} (hd : desktop ∈ s.desktops) (hpos : ¬(position < 0 ∨ s.count ≤ position)) :
    ((s.desktops.eraseIdx (s.desktops.idxOf desktop)).insertIdx position.toNat desktop).Perm s.desktops := by
  have hlen := List.length_eraseIdx_of_lt (List.idxOf_lt_length_of_mem hd)
  have hle : position.toNat ≤ (s.desktops.eraseIdx (s.desktops.idxOf desktop)).length := by
    rw [count] at hpos
    omega
  have herase := List.perm_cons_erase hd
  rw [List.erase_eq_eraseIdx_of_idxOf rfl] at herase
  exact (List.perm_insertIdx desktop _ hle).trans herase.symm

theorem LaidOut.moveVirtualDesktop (h : s.LaidOut) (desktop : Nat) (position : Int) :
    (s.moveVirtualDesktop desktop position).LaidOut := by
  rw [VirtualDesktopManager.moveVirtualDesktop]
  split
  case isTrue => exact h
  case isFalse hd =>
    split
    case isTrue => exact h
    case isFalse hpos =>
      split
      case isTrue => exact h
      case isFalse =>
        have hd := Decidable.not_not.mp hd
        have hperm := perm_moved hd hpos
        have hnodup := hperm.nodup_iff.mpr h.nodup
        exact Listed.updateLayout {
          nonempty := List.ne_nil_of_mem (hperm.mem_iff.mpr hd)
          maximum  := Nat.le_trans (Nat.le_of_eq hperm.length_eq) h.maximum
          nodup    := hnodup
          created desktop hd := h.created desktop (hperm.mem_iff.mp hd)
          numbers  := numbered_renumber (i := 0) hnodup nofun
          rows     := h.rows }

theorem Created.append (h : s.Created) (newId : String) : Created { s with
    desktops         := s.desktops ++ [s.nextDesktop]
    id               := Function.update s.id s.nextDesktop newId
    x11DesktopNumber := Function.update s.x11DesktopNumber s.nextDesktop (s.count + 1)
    nextDesktop      := s.nextDesktop + 1 } where
  nodup           := h.nodup.append (List.nodup_singleton _) (List.disjoint_singleton.mpr h.notMem)
  created desktop hd := by
    cases List.mem_append.mp hd
    case inl hd => exact Nat.lt_succ_of_lt (h.created desktop hd)
    case inr hd => exact List.mem_singleton.mp hd ▸ Nat.lt_succ_self _
  numbers i desktop hd := by
    rw [List.getElem?_append] at hd
    split at hd
    case isTrue hi =>
      have hne : desktop ≠ s.nextDesktop := fun heq => h.notMem (heq ▸ List.mem_of_getElem? hd)
      exact (Function.update_of_ne hne ..).trans (h.numbers i desktop hd)
    case isFalse hi =>
      have ⟨hlt, hd⟩ := List.getElem?_eq_some_iff.mp hd
      have hlen : i = s.desktops.length := by
        rw [List.length_singleton] at hlt
        omega
      rw [List.getElem_singleton] at hd
      rw [← hd, hlen]
      exact Function.update_self ..

theorem Created.appendDesktops (h : s.Created) (newId : Nat → String) (n : Nat) :
    (appendDesktops newId n s).Created ∧ (appendDesktops newId n s).count = s.count + n := by
  induction n generalizing s
  case zero => exact ⟨h, rfl⟩
  case succ n ih =>
    have ⟨hc, hcount⟩ := ih (h.append (newId (s.count + 1)))
    refine ⟨hc, hcount.trans ?_⟩
    rw [count, List.length_append, List.length_singleton, ← count]
    omega

theorem appendDesktops_other (newId : Nat → String) (n : Nat) (s : VirtualDesktopManager) :
    s.desktops ⊆ (appendDesktops newId n s).desktops ∧
      appendDesktops newId n s = { s with
        desktops         := (appendDesktops newId n s).desktops
        id               := (appendDesktops newId n s).id
        x11DesktopNumber := (appendDesktops newId n s).x11DesktopNumber
        nextDesktop      := (appendDesktops newId n s).nextDesktop } := by
  induction n generalizing s
  case zero => exact ⟨List.Subset.refl _, rfl⟩
  case succ n ih =>
    have ⟨hsub, heq⟩ := ih { s with
      desktops         := s.desktops ++ [s.nextDesktop]
      id               := Function.update s.id s.nextDesktop (newId (s.count + 1))
      x11DesktopNumber := Function.update s.x11DesktopNumber s.nextDesktop (s.count + 1)
      nextDesktop      := s.nextDesktop + 1 }
    exact ⟨List.Subset.trans (List.subset_append_left _ _) hsub, heq⟩

theorem Created.setCount (h : s.Created) (hr : 1 ≤ s.rows) (count : Nat) (newId : Nat → String)
    (hne : max 1 (min count VirtualDesktopManager.maximum) ≠ s.count) : (s.setCount count newId).LaidOut := by
  rw [VirtualDesktopManager.setCount, if_neg hne]
  have hmax : max 1 (min count VirtualDesktopManager.maximum) ≤ VirtualDesktopManager.maximum :=
    Nat.max_le.mpr ⟨by decide, Nat.min_le_right _ _⟩
  have hpos : 1 ≤ max 1 (min count VirtualDesktopManager.maximum) := Nat.le_max_left _ _
  generalize max 1 (min count VirtualDesktopManager.maximum) = n at hne hmax hpos ⊢
  split
  case isTrue hlt =>
    have hsub := List.take_sublist n s.desktops
    have hlen : (s.desktops.take n).length = n := List.length_take_of_le (Nat.le_of_lt hlt)
    exact Listed.updateLayout {
      nonempty := List.length_pos_iff.mp (Nat.lt_of_lt_of_eq hpos hlen.symm)
      maximum  := Nat.le_trans (Nat.le_of_eq hlen) hmax
      nodup    := h.nodup.sublist hsub
      created desktop hd := h.created desktop (hsub.subset hd)
      numbers i desktop hd := by
        rw [List.getElem?_take] at hd
        split at hd
        case isTrue => exact h.numbers i desktop hd
        case isFalse => cases hd
      rows     := hr }
  case isFalse hge =>
    have ⟨hc, hcount⟩ := h.appendDesktops newId (n - s.count)
    have ⟨_, hother⟩ := appendDesktops_other newId (n - s.count) s
    have hn : s.count + (n - s.count) = n := Nat.add_sub_of_le (Nat.le_of_not_lt hge)
    have hrows : 1 ≤ (VirtualDesktopManager.appendDesktops newId (n - s.count) s).rows := hother ▸ hr
    rw [hn] at hcount
    exact Listed.updateLayout {
      toCreated := hc
      nonempty  := List.length_pos_iff.mp (Nat.lt_of_lt_of_eq hpos hcount.symm)
      maximum   := Nat.le_trans (Nat.le_of_eq hcount) hmax
      rows      := hrows }

theorem LaidOut.setCount (h : s.LaidOut) (count : Nat) (newId : Nat → String) : (s.setCount count newId).LaidOut := by
  by_cases heq : max 1 (min count VirtualDesktopManager.maximum) = s.count
  case pos =>
    rw [VirtualDesktopManager.setCount, if_pos heq]
    exact h
  case neg => exact h.toCreated.setCount h.rows count newId heq

theorem LaidOut.setRows (h : s.LaidOut) (rows : Nat) : (s.setRows rows).LaidOut := by
  rw [VirtualDesktopManager.setRows]
  split
  case isTrue => exact h
  case isFalse hr =>
    exact Listed.updateLayout { h.toListed with rows := Nat.one_le_iff_ne_zero.mpr fun hzero => hr (.inl hzero) }

-- Only the desktops of the outputs change.
theorem LaidOut.of_eq {s' : VirtualDesktopManager} (h : s.LaidOut) (hs : s' = { s with
    perOutputVirtualDesktops := s'.perOutputVirtualDesktops
    currentDesktops          := s'.currentDesktops
    outputs                  := s'.outputs
    activeOutput             := s'.activeOutput }) : s'.LaidOut := by
  rw [hs]
  exact { h with }

end VirtualDesktopManager

namespace VirtualDesktopGrid

variable {g : VirtualDesktopGrid} {width height x y vd : Nat} {desktops row : List Nat} {rows : List (List Nat)}

def column (g : VirtualDesktopGrid) (x : Nat) : List Nat :=
  g.grid.filterMap (·[x]?)

theorem coordsFrom_eq_some {n : Nat} (h : coordsFrom vd n rows = some (x, y)) :
    n ≤ y ∧ ∃ row, rows[y - n]? = some row ∧ row[x]? = some vd := by
  induction rows generalizing n with
  | nil => cases h
  | cons row rows ih =>
    rw [coordsFrom] at h
    split at h
    case h_1 i hi =>
      cases h
      have ⟨hlt, hvd, _⟩ := List.idxOf?_eq_some_iff.mp hi
      exact ⟨Nat.le_refl _, row, by simp, List.getElem?_eq_some_iff.mpr ⟨hlt, hvd⟩⟩
    case h_2 =>
      have ⟨hle, row', hrow, hvd⟩ := ih h
      have hy : y - n = y - (n + 1) + 1 := by omega
      exact ⟨Nat.le_of_succ_le hle, row', by rw [hy, List.getElem?_cons_succ, hrow], hvd⟩

theorem exists_coordsFrom {n : Nat} (h : vd ∈ rows.flatten) : ∃ coords, coordsFrom vd n rows = some coords := by
  induction rows generalizing n with
  | nil => cases h
  | cons row rows ih =>
    rw [coordsFrom]
    cases hidx : row.idxOf? vd with
    | some x => exact ⟨_, rfl⟩
    | none =>
      rw [List.flatten_cons, List.mem_append] at h
      exact ih (h.resolve_left (List.idxOf?_eq_none_iff.mp hidx))

theorem exists_gridCoords (h : vd ∈ g.grid.flatten) :
    ∃ x y row, g.gridCoords? vd = some (x, y) ∧ g.grid[y]? = some row ∧ row[x]? = some vd := by
  have ⟨(x, y), hcoords⟩ := exists_coordsFrom (n := 0) h
  have ⟨_, row, hrow, hvd⟩ := coordsFrom_eq_some hcoords
  exact ⟨x, y, row, hcoords, hrow, hvd⟩

theorem length_gridRows : (gridRows width height desktops).length = height := by
  induction height generalizing desktops with
  | zero => rfl
  | succ height ih => rw [gridRows, List.length_cons, ih]

theorem length_le_of_mem_gridRows (h : row ∈ gridRows width height desktops) : row.length ≤ width := by
  induction height generalizing desktops with
  | zero => cases h
  | succ height ih =>
    cases List.mem_cons.mp h with
    | inl h => exact h ▸ List.length_take_le width desktops
    | inr h => exact ih h

theorem filterMap_sublist_flatten (x : Nat) (rows : List (List Nat)) :
    (rows.filterMap (·[x]?)).Sublist rows.flatten := by
  induction rows with
  | nil => exact .slnil
  | cons row rows ih =>
    rw [List.filterMap_cons, List.flatten_cons]
    split
    case h_1 => exact ih.trans (List.sublist_append_right row _)
    case h_2 vd hvd => exact (List.singleton_sublist.mpr (List.mem_of_getElem? hvd)).append ih

theorem gridRows_nil : gridRows width height [] = List.replicate height [] := by
  induction height with
  | zero => rfl
  | succ height ih => rw [gridRows, List.take_nil, List.drop_nil, ih, List.replicate_succ]

-- A cell is missing only if those below it are.
theorem column_gridRows (hx : x < width) (y : Nat) :
    ((gridRows width height desktops).filterMap (·[x]?))[y]? =
      (gridRows width height desktops)[y]?.bind (·[x]?) := by
  induction height generalizing desktops y with
  | zero => rfl
  | succ height ih =>
    rw [gridRows, List.filterMap_cons]
    cases hcell : (desktops.take width)[x]? with
    | some vd =>
      cases y with
      | zero => simp [hcell]
      | succ y => simpa using ih y
    | none =>
      have hlen : desktops.length ≤ width := by
        have hle := List.getElem?_eq_none_iff.mp hcell
        rw [List.length_take] at hle
        omega
      rw [List.drop_eq_nil_of_le hlen, gridRows_nil]
      cases y with
      | zero => simp [hcell]
      | succ y =>
        rw [List.getElem?_cons_succ, List.getElem?_replicate]
        by_cases hy : y < height <;> simp [hy]

end VirtualDesktopGrid

namespace VirtualDesktopManager

variable {s : VirtualDesktopManager} {desktop : Nat}

-- Where a desktop is in the grid.
structure Placed (g : VirtualDesktopGrid) (desktop x y : Nat) (row : List Nat) : Prop where
  coords      : g.gridCoords? desktop = some (x, y)
  isRow       : g.grid[y]? = some row
  inRow       : row[x]? = some desktop
  inColumn    : (g.column x)[y]? = some desktop
  rowNodup    : row.Nodup
  columnNodup : (g.column x).Nodup

-- With wrapping, the desktops of a row and those of a column are gone through in a cycle.
structure Navigated (s : VirtualDesktopManager) (desktop x y : Nat) (row : List Nat) (fuel : Nat) : Prop where
  rightWrapped : s.toRight desktop true fuel = some (row.formPerm desktop)
  leftWrapped  : s.toLeft desktop true fuel = some (row.formPerm⁻¹ desktop)
  belowWrapped : s.below desktop true fuel = some ((s.grid.column x).formPerm desktop)
  aboveWrapped : s.above desktop true fuel = some ((s.grid.column x).formPerm⁻¹ desktop)
  right        : s.toRight desktop false fuel = some ((s.grid.at? (x + 1) y).getD desktop)
  left         : s.toLeft desktop false fuel = some (if x = 0 then desktop else (s.grid.at? (x - 1) y).getD desktop)
  below        : s.below desktop false fuel = some ((s.grid.at? x (y + 1)).getD desktop)
  above        : s.above desktop false fuel = some (if y = 0 then desktop else (s.grid.at? x (y - 1)).getD desktop)

variable {width height x y fuel : Nat} {row : List Nat}

theorem Placed.navigated (h : Placed s.grid desktop x y row) (hw : row.length ≤ s.grid.width)
    (hh : (s.grid.column x).length ≤ s.grid.height) (hcell : ∀ y, (s.grid.column x)[y]? = s.grid.at? x y)
    (hwidth : s.grid.width ≤ fuel) (hheight : s.grid.height ≤ fuel) : Navigated s desktop x y row fuel := by
  have hrow : (fun x => s.grid.at? x y) = (row[·]?) := by
    funext x
    rw [VirtualDesktopGrid.at?, h.isRow, Option.bind_some]
  have hpos : 0 < row.length := Nat.zero_lt_of_lt (List.getElem?_eq_some_iff.mp h.inRow).1
  constructor <;> simp only [toRight, toLeft, VirtualDesktopManager.below, VirtualDesktopManager.above, h.coords,
    Option.bind_some, hrow, ← hcell]
  case rightWrapped => exact Line.search_up_wrap h.rowNodup h.inRow hw hwidth
  case leftWrapped => exact Line.search_down_wrap h.rowNodup h.inRow hw hwidth
  case belowWrapped => exact Line.search_up_wrap h.columnNodup h.inColumn hh hheight
  case aboveWrapped => exact Line.search_down_wrap h.columnNodup h.inColumn hh hheight
  case right =>
    have hat : s.grid.at? (x + 1) y = row[x + 1]? := congrFun hrow (x + 1)
    exact hat ▸ Line.search_up_stop h.inRow hw hwidth
  case left =>
    have hat : s.grid.at? (x - 1) y = row[x - 1]? := congrFun hrow (x - 1)
    exact hat ▸ Line.search_down_stop h.inRow (by omega)
  case below => exact Line.search_up_stop h.inColumn hh hheight
  case above => exact Line.search_down_stop h.inColumn (by omega)

theorem ceil_le {n k : Nat} (hn : 1 ≤ n) (hk : 1 ≤ k) : (n + k - 1) / k ≤ n := by
  refine Nat.div_le_of_le_mul ?_
  have hmul := Nat.le_mul_of_pos_right (k - 1) hn
  have hle := Nat.le_mul_of_pos_left n hk
  rw [Nat.sub_mul, Nat.one_mul] at hmul
  omega

theorem navigation (hn : s.desktops.Nodup) (hr : 1 ≤ s.rows) (hle : s.rows ≤ s.count) (hd : desktop ∈ s.desktops) :
    ∃ x y row, Placed s.updateLayout.grid desktop x y row ∧
      ∀ fuel, s.count ≤ fuel → Navigated s.updateLayout desktop x y row fuel := by
  have hcount : 1 ≤ s.count := Nat.le_trans hr hle
  have hwidth : s.updateLayout.grid.width = (s.count + s.rows - 1) / s.rows := by
    have hceil := ceil_eq (n := s.count) hr
    simpa [updateLayout, VirtualDesktopGrid.update, Nat.min_eq_left hle] using hceil
  have hheight : s.updateLayout.grid.height = s.rows := Nat.min_eq_left hle
  have hgrid : s.updateLayout.grid.grid =
      VirtualDesktopGrid.gridRows s.updateLayout.grid.width s.updateLayout.grid.height s.desktops := rfl
  have hflatten : s.updateLayout.grid.grid.flatten = s.desktops := by
    rw [hgrid, VirtualDesktopGrid.flatten_gridRows, hwidth, hheight]
    exact List.take_of_length_le (le_mul_ceil hr)
  have ⟨x, y, row, hcoords, hrow, hvd⟩ := VirtualDesktopGrid.exists_gridCoords (hflatten ▸ hd)
  have hmem := List.mem_of_getElem? hrow
  have hw := VirtualDesktopGrid.length_le_of_mem_gridRows (hgrid ▸ hmem)
  have hx : x < s.updateLayout.grid.width := Nat.lt_of_lt_of_le (List.getElem?_eq_some_iff.mp hvd).1 hw
  have hcell (y : Nat) : (s.updateLayout.grid.column x)[y]? = s.updateLayout.grid.at? x y :=
    VirtualDesktopGrid.column_gridRows hx y
  have hsub := VirtualDesktopGrid.filterMap_sublist_flatten x s.updateLayout.grid.grid
  have hh : (s.updateLayout.grid.column x).length ≤ s.updateLayout.grid.height := by
    refine Nat.le_trans (List.length_filterMap_le _ _) (Nat.le_of_eq ?_)
    rw [hgrid, VirtualDesktopGrid.length_gridRows]
  have hplaced : Placed s.updateLayout.grid desktop x y row := {
    coords      := hcoords
    isRow       := hrow
    inRow       := hvd
    inColumn    := by rw [hcell, VirtualDesktopGrid.at?, hrow, Option.bind_some, hvd]
    rowNodup    := (hflatten ▸ hn).sublist (List.sublist_flatten_of_mem hmem)
    columnNodup := (hflatten ▸ hn).sublist hsub }
  refine ⟨x, y, row, hplaced, fun fuel hf => hplaced.navigated hw hh hcell ?_ ?_⟩
  · rw [hwidth]
    exact Nat.le_trans (ceil_le hcount hr) hf
  · rw [hheight]
    exact Nat.le_trans hle hf

theorem navigation_five : ∃ x y row,
    Placed (updateLayout { desktops := [7, 4, 9, 2, 5], rows := 3 }).grid 5 x y row ∧
      ∀ fuel, 5 ≤ fuel → Navigated (updateLayout { desktops := [7, 4, 9, 2, 5], rows := 3 }) 5 x y row fuel :=
  navigation (by decide) (by decide) (by decide) (by decide)

end VirtualDesktopManager

end KWin
