import PlasmaModel.VirtualDesktops.Manager

namespace KWin.VirtualDesktopManager

variable {s s' : VirtualDesktopManager} {group : DesktopsGroup} {generateDesktopId : Nat → DesktopId} {i n : Nat}

structure Loaded (s : VirtualDesktopManager) : Prop where
  rows    : 1 ≤ s.rows ∧ s.rows ≤ s.count
  maximum : s.count ≤ maximum
  ids     : ∀ desktop ∈ s.desktops, s.id desktop ≠ ""

theorem count_appendDesktops (newId : Nat → String) : (appendDesktops newId n s).count = s.count + n := by
  induction n generalizing s
  case zero => rfl
  case succ n ih =>
    rw [appendDesktops, ih]
    simp [count]
    omega

theorem count_setCount (newId : Nat → String) : (s.setCount n newId).count = max 1 (min n maximum) := by
  rw [setCount]
  generalize max 1 (min n maximum) = count
  dsimp only
  split
  case isTrue heq => exact heq.symm
  case isFalse =>
    split
    case isTrue hlt => exact List.length_take_of_le (Nat.le_of_lt hlt)
    case isFalse hge =>
      have happend := count_appendDesktops (s := s) (n := count - s.count) newId
      exact happend.trans (by omega)

-- What is there after the first desktops have been loaded.
structure LoadedUpTo (s s' : VirtualDesktopManager) (i : Nat) : Prop where
  desktops : s'.desktops = s.desktops
  ids      : ∀ j desktop, j < i → s.desktops[j]? = some desktop → s'.id desktop ≠ ""

theorem LoadedUpTo.loadDesktop (group : DesktopsGroup) (generateDesktopId : Nat → DesktopId) (h : LoadedUpTo s s' i)
    (hi : i < s.count) :
    ∃ next, loadDesktop group generateDesktopId s' (i + 1) = .ok next ∧ LoadedUpTo s next (i + 1) := by
  have ⟨here, hhere⟩ : ∃ here, s.desktops[i]? = some here := ⟨_, List.getElem?_eq_getElem hi⟩
  have hget : s'.desktops[i + 1 - 1]? = some here := by
    rw [h.desktops]
    exact hhere
  have hcases {j desktop} (hj : j < i + 1) (hd : s.desktops[j]? = some desktop) :
      s'.id desktop ≠ "" ∨ desktop = here := by
    cases Nat.lt_succ_iff_lt_or_eq.mp hj with
    | inl hlt => exact .inl (h.ids j desktop hlt hd)
    | inr heq =>
      subst heq
      exact .inr (Option.some.inj (hd.symm.trans hhere))
  rw [VirtualDesktopManager.loadDesktop, hget]
  dsimp only
  split
  case isTrue hempty =>
    refine ⟨_, rfl, h.desktops, fun j desktop hj hd => ?_⟩
    dsimp only
    rw [Function.update_apply]
    split
    case isTrue =>
      split
      case isTrue => exact (generateDesktopId (i + 1)).property
      case isFalse hne => exact hne
    case isFalse hne => exact (hcases hj hd).resolve_right hne
  case isFalse hne =>
    refine ⟨s', rfl, h.desktops, fun j desktop hj hd => ?_⟩
    exact (hcases hj hd).elim (fun hold => hold) fun heq => heq ▸ hne

theorem loadDesktops (group : DesktopsGroup) (generateDesktopId : Nat → DesktopId) (hn : n ≤ s.count) :
    ∃ s', (List.range' 1 n).foldlM (loadDesktop group generateDesktopId) s = .ok s' ∧ LoadedUpTo s s' n := by
  induction n
  case zero => exact ⟨s, rfl, rfl, nofun⟩
  case succ n ih =>
    have ⟨s₁, hs₁, h₁⟩ := ih (Nat.le_of_succ_le hn)
    have ⟨s₂, hs₂, h₂⟩ := h₁.loadDesktop group generateDesktopId hn
    refine ⟨s₂, ?_, h₂⟩
    rw [List.range'_concat, List.foldlM_append, hs₁, Nat.one_mul, Nat.add_comm 1 n]
    exact (congrArg (· >>= pure) hs₂).trans rfl

-- The first desktop that is not there cannot be loaded.
theorem loadDesktops_error (group : DesktopsGroup) (generateDesktopId : Nat → DesktopId) (hn : s.count < n) :
    (List.range' 1 n).foldlM (loadDesktop group generateDesktopId) s = .error .outOfRange := by
  have ⟨s₁, hs₁, h₁⟩ := loadDesktops group generateDesktopId (Nat.le_refl s.count)
  have hnext : loadDesktop group generateDesktopId s₁ (1 + s.count) = .error .outOfRange := by
    have hnone : s.desktops[s.count]? = none := List.getElem?_eq_none (Nat.le_refl _)
    rw [VirtualDesktopManager.loadDesktop, h₁.desktops, Nat.add_sub_cancel_left, hnone]
  have hsplit :
      List.range' 1 n = List.range' 1 s.count ++ (1 + s.count) :: List.range' (2 + s.count) (n - s.count - 1) := by
    have hn' : n = s.count + ((n - s.count - 1) + 1) := by omega
    conv_lhs => rw [hn', ← List.range'_append_1, List.range'_succ]
    congr 3
    omega
  rw [hsplit, List.foldlM_append, hs₁]
  change loadDesktop group generateDesktopId s₁ (1 + s.count) >>= _ = _
  rw [hnext]
  rfl

theorem toNat_toUInt32 {n : Int32} (hn : 0 ≤ n.toInt) : n.toUInt32.toNat = n.toInt.toNat := by
  have heq := BitVec.toInt_eq_toNat_cond n.toBitVec
  have hlt := n.toBitVec.isLt
  change 0 ≤ n.toBitVec.toInt at hn
  change n.toBitVec.toNat = n.toBitVec.toInt.toNat
  split at heq <;> omega

theorem loadGroup_loaded_iff (s : VirtualDesktopManager) (group : DesktopsGroup) (generateDesktopId : Nat → DesktopId) :
    (∃ s', s.loadGroup group generateDesktopId = .ok s' ∧ s'.Loaded) ↔
      1 ≤ group.number.toInt ∧ group.number.toInt ≤ maximum := by
  have hcount := count_setCount (s := s) (n := group.number.toUInt32.toNat) fun _ => ""
  rw [loadGroup]
  generalize s.setCount group.number.toUInt32.toNat (fun _ => "") = s at hcount
  constructor
  case mp =>
    intro ⟨s', hs, _⟩
    by_contra hn
    by_cases hpos : 1 ≤ group.number.toInt
    case pos =>
      have hbits := toNat_toUInt32 (Int.le_of_lt hpos)
      have hlt : s.count < group.number.toInt.toNat := by
        have hmax := not_and.mp hn hpos
        rw [hbits] at hcount
        simp only [maximum] at hcount hmax
        omega
      simp only [loadDesktops_error group generateDesktopId hlt] at hs
      cases hs
    case neg =>
      have hzero : group.number.toInt.toNat = 0 := by omega
      have hclamp : clamp group.rows.toInt 1 group.number.toInt = .error .emptyInterval := if_pos (Int.not_le.mp hpos)
      rw [hzero] at hs
      simp only [hclamp] at hs
      cases hs
  case mpr =>
    intro ⟨hpos, hmax⟩
    have hn := toNat_toUInt32 (Int.le_of_lt hpos)
    have hcount' : s.count = group.number.toInt.toNat := by omega
    have ⟨s₁, hs₁, h₁⟩ := loadDesktops group generateDesktopId (Nat.le_of_eq hcount'.symm)
    have hclamp : clamp group.rows.toInt 1 group.number.toInt = .ok (max 1 (min group.rows.toInt group.number.toInt)) :=
      if_neg (Int.not_lt.mpr hpos)
    refine ⟨{ s₁ with rows := (max 1 (min group.rows.toInt group.number.toInt)).toNat }, ?_, ?_⟩
    · simp only [hs₁, hclamp]
      rfl
    · have hlength : s₁.count = s.count := congrArg List.length h₁.desktops
      constructor
      case rows =>
        simp only [count] at hlength hcount' ⊢
        omega
      case maximum =>
        simp only [count] at hlength hcount' ⊢
        omega
      case ids =>
        intro desktop hd
        have ⟨j, hj⟩ := List.mem_iff_getElem?.mp (h₁.desktops ▸ hd)
        have hlt := (List.getElem?_eq_some_iff.mp hj).1
        exact h₁.ids j desktop (hcount' ▸ hlt) hj

-- A configuration without desktops leaves no rows to choose from.
theorem not_always_loaded : ¬∀ (group : DesktopsGroup) (generateDesktopId : Nat → DesktopId),
    ∃ s', loadGroup {} group generateDesktopId = .ok s' ∧ s'.Loaded := by
  intro h
  have ⟨_, hs, _⟩ := h { number := 0 } fun _ => ⟨"id", by decide⟩
  cases hs

end KWin.VirtualDesktopManager
