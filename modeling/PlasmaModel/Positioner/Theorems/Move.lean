import PlasmaModel.Positioner.Theorems.Announced

namespace Folder.Positioner

variable {it : Iteration} {s : Positioner} {cell fromRow toRow sourceRow : Int} {moves : List (Int × Int)}
variable {condition : Int → Bool} {toIndices : List Int} {actualMoves : List RowMove}

theorem le_increaseWhile (fuel : Nat) (v : Int) : v ≤ increaseWhile condition fuel v := by
  induction fuel generalizing v
  case zero => exact le_rfl
  case succ fuel ih =>
    rw [increaseWhile]
    split
    case isTrue => exact (by omega : v ≤ v + 1).trans (ih (v + 1))
    case isFalse => exact le_rfl

theorem increaseWhile_eq {fuel : Nat} {v : Int} (h : condition v = false) : increaseWhile condition fuel v = v := by
  cases fuel <;> simp [increaseWhile, h]

-- Where a move may end that names a cell.
structure Requested (move : Int × Int) (toRow : Int) : Prop where
  le : move.2 ≤ toRow
  eq : move.1 = move.2 → toRow = move.2

theorem foldl_nextToIndex (moves : List (Int × Int)) : List.Forall₂ Requested moves (moves.foldl nextToIndex []) := by
  have h : ∀ done rest toIndices, List.Forall₂ Requested done toIndices →
      List.Forall₂ Requested (done ++ rest) (rest.foldl nextToIndex toIndices) := by
    intro done rest
    induction rest generalizing done
    case nil => simp
    case cons move rest ih =>
      intro toIndices hdone
      rw [List.foldl_cons, ← List.singleton_append, ← List.append_assoc]
      apply ih
      apply List.rel_append hdone
      refine .cons ⟨le_increaseWhile _ _, fun heq => increaseWhile_eq ?_⟩ .nil
      simp [heq]
  exact h [] moves [] .nil

theorem le_blankToIndex (s : Positioner) (fromIndices toIndices : List Int) (fromRow toRow : Int) :
    toRow ≤ s.blankToIndex fromIndices toIndices fromRow toRow := by
  unfold blankToIndex
  split
  case isTrue => exact le_increaseWhile _ _
  case isFalse => exact le_rfl

theorem trimmedEnd_le (s : Positioner) (toBeRemoved : List Int) (newEnd : Int) :
    s.trimmedEnd toBeRemoved (s.lastRow + 1) newEnd ≤ max s.lastRow newEnd := by
  unfold trimmedEnd
  cases hlast : ((rows 0 (s.lastRow + 1 - 1)).reverse.takeWhile fun i => s.isBlank i || i ∈ toBeRemoved).getLast?
  case none => exact le_max_right _ _
  case some i =>
    have hi := (List.takeWhile_sublist _).subset (List.mem_of_getLast? hlast)
    have := mem_rows.mp (List.mem_reverse.mp hi)
    exact le_max_of_le_left (by show i ≤ s.lastRow; omega)

theorem tryMove_cases (he : s.enabled) (fromIndices : List Int) (t : Trial) (i : Nat) (fromRow sourceRow : Int) :
    ((sourceRow = -1 ∨ fromRow = t.toIndices.getD i 0) ∧ s.tryMove fromIndices t i fromRow sourceRow = t) ∨
    ∃ toRow trimmed toBeRemoved, (sourceRow ≠ -1 ∧ fromRow ≠ t.toIndices.getD i 0) ∧
      (t.toIndices.getD i 0 ≠ -1 → t.toIndices.getD i 0 ≤ toRow) ∧ trimmed ≤ max s.lastRow t.newEnd ∧
      s.tryMove fromIndices t i fromRow sourceRow = {
        toIndices   := t.toIndices.set i toRow
        newEnd      := max (if fromRow = t.newEnd then trimmed else t.newEnd) (max t.maxTo toRow)
        maxTo       := max t.maxTo toRow
        toBeRemoved
        actualMoves := t.actualMoves ++ [{ fromRow, toRow, sourceRow }] } := by
  unfold tryMove
  dsimp only
  split
  case isTrue h => exact .inl ⟨by simpa using h, rfl⟩
  case isFalse h =>
    refine .inr ⟨_, _, _, by simpa using h, fun hne => ?_, ?_, rfl⟩
    · rw [if_neg hne]
      exact le_blankToIndex _ _ _ _ _
    · rw [rowCount_eq he]
      exact trimmedEnd_le _ _ _

-- The source row of a row of an enabled positioner.
def map (s : Positioner) (row : Int) : Int :=
  (s.proxyToSource.lookup row).getD (-1)

theorem mem_of_map (h : s.map cell ≠ -1) : cell ∈ s.proxyToSource := by
  rw [Hash.mem_iff]
  cases hl : s.proxyToSource.lookup cell
  case none => simp [map, hl] at h
  case some row => exact ⟨row, rfl⟩

-- No move takes the icon out of the last row.
def LastStays (s : Positioner) (moves : List (Int × Int)) : Prop :=
  ∀ move ∈ moves, move.1 = s.lastRow → move.2 = s.lastRow

-- An icon is moved to the last row or behind it.
def ReachesEnd (s : Positioner) (move : Int × Int) : Prop :=
  s.map move.1 ≠ -1 ∧ move.1 < move.2 ∧ s.lastRow ≤ move.2 ∧ 0 ≤ move.2

-- What is known when the first `i` moves have been tried.
structure Trying (s : Positioner) (moves : List (Int × Int)) (i : Nat) (t : Trial) : Prop where
  length  : t.toIndices.length = moves.length
  pending : ∀ j (hj : j < moves.length), i ≤ j → Requested moves[j] (t.toIndices.getD j 0)
  targets : ∀ move ∈ t.actualMoves, move.toRow ∈ t.toIndices.take i
  froms   : ∀ move ∈ t.actualMoves, move.fromRow ∈ s.proxyToSource
  maxTo   : ∀ move ∈ t.actualMoves, move.toRow ≤ t.maxTo
  reached : t.maxTo = -1 ∨ ∃ move ∈ t.actualMoves, move.toRow = t.maxTo
  end_le  : t.newEnd ≤ max s.lastRow t.maxTo
  le_end  : t.maxTo ≤ t.newEnd
  stays   : s.LastStays moves → t.newEnd = max s.lastRow t.maxTo ∧ ∀ move ∈ t.actualMoves, move.fromRow ≠ s.lastRow
  reaches : ∀ j (hj : j < moves.length), j < i → s.ReachesEnd moves[j] → max s.lastRow 0 ≤ t.maxTo

namespace Trying

theorem start (hl : -1 ≤ s.lastRow) :
    Trying s moves 0 { toIndices := moves.foldl nextToIndex [], newEnd := s.lastRow } where
  length := (foldl_nextToIndex moves).length_eq.symm
  pending j hj _ := by
    have h := foldl_nextToIndex moves
    have hj' : j < (moves.foldl nextToIndex []).length := h.length_eq ▸ hj
    rw [List.getD_eq_getElem _ _ hj']
    exact h.get hj hj'
  targets := by simp
  froms := by simp
  maxTo := by simp
  reached := .inl rfl
  end_le := le_max_left _ _
  le_end := hl
  stays _ := ⟨(max_eq_left hl).symm, by simp⟩
  reaches j hj hlt := by omega

theorem tryMove {i : Nat} {t : Trial} (h : Trying s moves i t) (he : s.enabled) (hi : i < moves.length) (fromIndices : List Int) :
    Trying s moves (i + 1) (s.tryMove fromIndices t i moves[i].1 (s.map moves[i].1)) := by
  have hrequested := h.pending i hi le_rfl
  rcases tryMove_cases he fromIndices t i moves[i].1 (s.map moves[i].1) with
    ⟨hskip, heq⟩ | ⟨toRow, trimmed, toBeRemoved, ⟨hrow, hne⟩, hto, htrimmed, heq⟩
  · rw [heq]
    refine { h with
      pending := fun j hj hij => h.pending j hj (by omega)
      targets := fun move hm => List.take_subset_take_left _ (by omega) (h.targets move hm)
      reaches := fun j hj hji hr => ?_ }
    cases Nat.lt_succ_iff_lt_or_eq.mp hji
    case inl hlt => exact h.reaches j hj hlt hr
    case inr heq =>
      subst heq
      have := hr.1
      have := hr.2.1
      have := hrequested.le
      rcases hskip with hskip | hskip
      · contradiction
      · omega
  · rw [heq]
    have hmem := mem_of_map hrow
    have hle := le_lastRow hmem
    have hlen : i < t.toIndices.length := h.length ▸ hi
    have hmoved : moves[i].1 = s.lastRow → ¬s.LastStays moves := fun hlast hstays => by
      have := hstays _ (List.getElem_mem hi) hlast
      exact hne (by rw [hrequested.eq (by omega)]; omega)
    have hreached : s.ReachesEnd moves[i] → max s.lastRow 0 ≤ toRow := fun ⟨_, _, hr, hpos⟩ => by
      have := hrequested.le
      have := hto (by omega)
      omega
    refine ⟨by simpa using h.length, ?pending, ?targets, ?froms, ?maxTo, ?reached, ?end_le, le_max_right _ _, ?stays, ?reaches⟩
    case pending =>
      intro j hj hij
      have := h.pending j hj (by omega)
      rwa [List.getD_eq_getElem?_getD, List.getElem?_set_ne (by omega), ← List.getD_eq_getElem?_getD]
    case targets =>
      intro move hm
      dsimp only at hm ⊢
      rw [List.take_add_one, List.getElem?_set_self hlen, List.take_set_of_le le_rfl]
      rcases List.mem_append.mp hm with hm | hm
      · exact List.mem_append_left _ (h.targets move hm)
      · simp [List.mem_singleton.mp hm]
    case froms =>
      intro move hm
      rcases List.mem_append.mp hm with hm | hm
      · exact h.froms move hm
      · exact List.mem_singleton.mp hm ▸ hmem
    case maxTo =>
      intro move hm
      rcases List.mem_append.mp hm with hm | hm
      · exact (h.maxTo move hm).trans (le_max_left _ _)
      · rw [List.mem_singleton.mp hm]
        exact le_max_right _ _
    case reached =>
      rcases max_choice t.maxTo toRow with hmax | hmax <;> dsimp only <;> rw [hmax]
      · cases h.reached
        case inl hr => exact .inl hr
        case inr hr =>
          have ⟨move, hm, hr⟩ := hr
          exact .inr ⟨move, List.mem_append_left _ hm, hr⟩
      · exact .inr ⟨_, List.mem_append_right _ List.mem_cons_self, rfl⟩
    case end_le =>
      have := h.end_le
      dsimp only
      split <;> omega
    case stays =>
      intro hstays
      have ⟨hend, hfroms⟩ := h.stays hstays
      constructor
      · dsimp only
        rw [if_neg fun heq => hmoved (by omega) hstays]
        omega
      · intro move hm
        rcases List.mem_append.mp hm with hm | hm
        · exact hfroms move hm
        · exact List.mem_singleton.mp hm ▸ fun hlast => hmoved hlast hstays
    case reaches =>
      intro j hj hji hr
      cases Nat.lt_succ_iff_lt_or_eq.mp hji
      case inl hlt => exact (h.reaches j hj hlt hr).trans (le_max_left _ _)
      case inr heq => exact (hreached (by simpa only [heq] using hr)).trans (le_max_right _ _)

theorem tryMoves {i : Nat} {t : Trial} (h : Trying s moves i t) (he : s.enabled) (hi : i ≤ moves.length)
    (fromIndices : List Int) : Trying s moves moves.length (s.tryMoves fromIndices i ((moves.drop i).map Prod.fst) t) := by
  generalize hrest : moves.drop i = rest
  induction rest generalizing i t
  case nil => exact le_antisymm hi (List.drop_eq_nil_iff.mp hrest) ▸ h
  case cons move rest ih =>
    have hlt : i < moves.length := by
      by_contra hge
      rw [List.drop_eq_nil_iff.mpr (by omega)] at hrest
      contradiction
    rw [List.drop_eq_getElem_cons hlt, List.cons.injEq] at hrest
    rw [← hrest.1]
    exact ih (h.tryMove he hlt fromIndices) hlt hrest.2

end Trying

-- The moves as they are tried.
def trial (s : Positioner) (moves : List (Int × Int)) : Trial :=
  s.tryMoves (moves.map Prod.fst) 0 (moves.map Prod.fst) { toIndices := moves.foldl nextToIndex [], newEnd := s.lastRow }

theorem trying_trial (he : s.enabled) (hl : -1 ≤ s.lastRow) (moves : List (Int × Int)) :
    Trying s moves moves.length (s.trial moves) :=
  (Trying.start hl).tryMoves he (Nat.zero_le _) _

-- The moves as they are done.

theorem applyMove_eq (toIndices : List Int) (s : Positioner) (move : RowMove) :
    ∃ p q c, applyMove toIndices s move = { s with proxyToSource := p, sourceToProxy := q, changedPositions := c } := by
  unfold applyMove
  dsimp only
  split <;> exact ⟨_, _, _, rfl⟩

theorem foldl_applyMove_eq (toIndices : List Int) (l : List RowMove) (s : Positioner) :
    ∃ p q c, l.foldl (applyMove toIndices) s = { s with proxyToSource := p, sourceToProxy := q, changedPositions := c } := by
  induction l generalizing s
  case nil => exact ⟨_, _, _, rfl⟩
  case cons move l ih =>
    have ⟨_, _, _, h⟩ := applyMove_eq toIndices s move
    have ⟨p, q, c, h'⟩ := ih (applyMove toIndices s move)
    exact ⟨p, q, c, by rw [List.foldl_cons, h', h]⟩

theorem mem_applyMove {move : RowMove} : cell ∈ (applyMove toIndices s move).proxyToSource ↔
    cell = move.toRow ∨ (cell ∈ s.proxyToSource ∧ ¬(cell = move.fromRow ∧ cell ∉ toIndices)) := by
  unfold applyMove
  dsimp only
  split
  case isTrue h =>
    rw [mem_updateMaps]
    refine or_congr_right ?_
    rw [AList.mem_erase]
    by_cases hc : cell = move.fromRow
    case pos => simp [hc, h]
    case neg => simp [hc]
  case isFalse h =>
    rw [mem_updateMaps]
    exact or_congr_right (and_iff_left fun ⟨hc, hn⟩ => h (hc ▸ hn)).symm

theorem mem_foldl_applyMove {l : List RowMove} (cell : Int) (s : Positioner) (h : ∀ move ∈ l, move.toRow ∈ toIndices) :
    cell ∈ (l.foldl (applyMove toIndices) s).proxyToSource ↔
      (∃ move ∈ l, cell = move.toRow) ∨ (cell ∈ s.proxyToSource ∧ ¬((∃ move ∈ l, cell = move.fromRow) ∧ cell ∉ toIndices)) := by
  induction l generalizing s
  case nil => simp
  case cons move l ih =>
    have hto := h move List.mem_cons_self
    rw [List.foldl_cons, ih _ fun move hm => h move (List.mem_cons_of_mem _ hm), mem_applyMove]
    simp only [List.mem_cons, exists_eq_or_imp]
    by_cases hc : cell = move.toRow
    case pos => simp [hc, hto]
    case neg => by_cases hT : cell ∈ toIndices <;> simp [hc, hT, and_assoc]

-- The rows end where the trial has them end.
theorem lastRow_moved {s' : Positioner} (he : s.enabled) (hl : -1 ≤ s.lastRow)
    (h : s.LastStays moves ∨ ∃ move ∈ moves, s.ReachesEnd move) (hs' : s'.proxyToSource = s.proxyToSource) :
    ((s.trial moves).actualMoves.foldl (applyMove (s.trial moves).toIndices) s').lastRow = (s.trial moves).newEnd := by
  have ht := trying_trial he hl moves
  generalize s.trial moves = t at ht
  have hcells := fun cell => mem_foldl_applyMove cell s' fun move hm => List.mem_of_mem_take (ht.targets move hm)
  rw [hs'] at hcells
  have hreaches : (∃ move ∈ moves, s.ReachesEnd move) → max s.lastRow 0 ≤ t.maxTo := by
    rintro ⟨move, hm, hr⟩
    obtain ⟨j, hj, heq⟩ := List.mem_iff_getElem.mp hm
    exact ht.reaches j hj hj (heq ▸ hr)
  have hend : t.newEnd = max s.lastRow t.maxTo := by
    cases h
    case inl h => exact (ht.stays h).1
    case inr h =>
      have := hreaches h
      have := ht.end_le
      have := ht.le_end
      omega
  cases hmoves : t.actualMoves
  case nil =>
    have := ht.reached
    simp only [hmoves, List.not_mem_nil, false_and, exists_false, or_false] at this
    rw [List.foldl_nil, lastRow, hs', ← lastRow]
    omega
  case cons move l =>
    rw [← hmoves, hend]
    have hlast : s.lastRow ∈ s.proxyToSource := lastRow_mem (ht.froms move (hmoves ▸ List.mem_cons_self))
    apply lastRow_eq
    · rw [hcells]
      by_cases hlt : s.lastRow < t.maxTo ∨ ∃ move ∈ moves, s.ReachesEnd move
      case pos =>
        have hmax : s.lastRow ≤ t.maxTo ∧ t.maxTo ≠ -1 := by
          cases hlt
          case inl hlt => omega
          case inr hr =>
            have := hreaches hr
            omega
        obtain ⟨move, hm, hto⟩ := ht.reached.resolve_left hmax.2
        exact .inl ⟨move, hm, by rw [hto, max_eq_right hmax.1]⟩
      case neg =>
        rw [not_or, not_lt] at hlt
        have hfroms := (ht.stays (h.resolve_right hlt.2)).2
        rw [max_eq_left hlt.1]
        refine .inr ⟨hlast, ?_⟩
        rintro ⟨⟨move, hm, hfrom⟩, _⟩
        exact hfroms move hm hfrom.symm
    · intro cell hm
      rcases (hcells cell).mp hm with ⟨move, hin, rfl⟩ | ⟨hin, _⟩
      · exact (ht.maxTo move hin).trans (le_max_right _ _)
      · exact (le_lastRow hin).trans (le_max_left _ _)

-- The state in which a move has told what it does.
def beginMove (s : Positioner) (newEnd : Int) : Positioner :=
  if newEnd < s.rowCount - 1 then
    s.emit (.beginRemoveRows (newEnd + 1) (s.rowCount - 1))
  else if s.rowCount - 1 < newEnd && !s.beginInsertRowsCalled then
    s.emit (.beginInsertRows s.rowCount newEnd)
  else
    s

def endMove (s : Positioner) (oldCount newEnd : Int) : Positioner :=
  if newEnd < oldCount - 1 then
    s.emit .endRemoveRows
  else if oldCount - 1 < newEnd then
    { s.emit .endInsertRows with beginInsertRowsCalled := false }
  else
    s

theorem move_eq (it : Iteration) (moves : List (Int × Int)) (hi : Idle s) (save : Bool) :
    SameRows (((s.trial moves).actualMoves.foldl (applyMove (s.trial moves).toIndices)
      (s.beginMove (s.trial moves).newEnd)).endMove s.rowCount (s.trial moves).newEnd) (s.move it moves save) := by
  have ht : s.tryMoves (moves.map Prod.fst) 0 (moves.map Prod.fst)
      { toIndices := moves.foldl nextToIndex [], newEnd := s.rowCount - 1 } = s.trial moves := by
    rw [rowCount_eq hi.enabled, show s.lastRow + 1 - 1 = s.lastRow by omega, trial]
  unfold move
  rw [if_neg (by simp [hi.listing])]
  dsimp only
  rw [ht]
  split
  case isTrue => exact (SameRows.updatePositionsList it _ 0).trans (.savePositionsConfig it _)
  case isFalse => exact .updatePositionsList it _ 0

theorem rowCount_of_lastRow {n : Int} (h : s.lastRow = n) (he : s.enabled) : s.rowCount = n + 1 := by
  rw [rowCount_eq he, h]

theorem endMove_announces (hi : Idle s) (hl : -1 ≤ s.lastRow) (h : s.LastStays moves ∨ ∃ move ∈ moves, s.ReachesEnd move) :
    let t := s.trial moves
    let s' := (t.actualMoves.foldl (applyMove t.toIndices) (s.beginMove t.newEnd)).endMove s.rowCount t.newEnd
    Announces s s' ∧ Idle s' := by
  intro t s'
  have hcount := rowCount_eq hi.enabled
  have hlast : ∀ s' : Positioner, s'.proxyToSource = s.proxyToSource →
      (t.actualMoves.foldl (applyMove t.toIndices) s').lastRow = t.newEnd := fun s' hs' => lastRow_moved hi.enabled hl h hs'
  have hmoved := foldl_applyMove_eq t.toIndices t.actualMoves
  rcases lt_trichotomy t.newEnd s.lastRow with hlt | heq | hgt
  · have hbegin : s.beginMove t.newEnd = s.emit (.beginRemoveRows (t.newEnd + 1) (s.rowCount - 1)) := if_pos (by omega)
    have hlast := hlast (s.emit (.beginRemoveRows (t.newEnd + 1) (s.rowCount - 1))) rfl
    obtain ⟨_, _, _, hmoved⟩ := hmoved (s.emit (.beginRemoveRows (t.newEnd + 1) (s.rowCount - 1)))
    simp only [s', hbegin, endMove, if_pos (show t.newEnd < s.rowCount - 1 by omega)]
    rw [hmoved] at hlast ⊢
    refine ⟨⟨[.beginRemoveRows (t.newEnd + 1) (s.rowCount - 1), .endRemoveRows], ?_, ?_⟩,
      ⟨hi.enabled, hi.listing, hi.deferApplyPositions, hi.ignoreNextTransaction, hi.beginInsertRowsCalled⟩⟩
    · exact List.append_assoc _ _ _
    · rw [replay, if_pos ⟨by omega, rfl⟩, replay]
      refine congrArg some (Eq.trans ?_ (rowCount_of_lastRow hlast hi.enabled).symm)
      omega
  · have hbegin : s.beginMove t.newEnd = s :=
      (if_neg (by omega)).trans (if_neg (by simp [hcount, heq]))
    have hlast := hlast s rfl
    obtain ⟨_, _, _, hmoved⟩ := hmoved s
    simp only [s', hbegin, endMove, if_neg (show ¬t.newEnd < s.rowCount - 1 by omega),
      if_neg (show ¬s.rowCount - 1 < t.newEnd by omega)]
    rw [hmoved] at hlast ⊢
    refine ⟨.of_eq rfl ?_,
      ⟨hi.enabled, hi.listing, hi.deferApplyPositions, hi.ignoreNextTransaction, hi.beginInsertRowsCalled⟩⟩
    exact (rowCount_of_lastRow hlast hi.enabled).trans (by omega)
  · have hbegin : s.beginMove t.newEnd = s.emit (.beginInsertRows s.rowCount t.newEnd) :=
      (if_neg (by omega)).trans (if_pos (by simp [hcount, hi.beginInsertRowsCalled]; omega))
    have hlast := hlast (s.emit (.beginInsertRows s.rowCount t.newEnd)) rfl
    obtain ⟨_, _, _, hmoved⟩ := hmoved (s.emit (.beginInsertRows s.rowCount t.newEnd))
    simp only [s', hbegin, endMove, if_neg (show ¬t.newEnd < s.rowCount - 1 by omega),
      if_pos (show s.rowCount - 1 < t.newEnd by omega)]
    rw [hmoved] at hlast ⊢
    refine ⟨⟨[.beginInsertRows s.rowCount t.newEnd, .endInsertRows], ?_, ?_⟩,
      ⟨hi.enabled, hi.listing, hi.deferApplyPositions, hi.ignoreNextTransaction, rfl⟩⟩
    · exact List.append_assoc _ _ _
    · rw [replay, if_pos ⟨rfl, by omega⟩, replay]
      refine congrArg some (Eq.trans ?_ (rowCount_of_lastRow hlast hi.enabled).symm)
      omega

theorem move_announces (it : Iteration) (hi : Idle s) (save : Bool) (hl : -1 ≤ s.lastRow)
    (h : s.LastStays moves ∨ ∃ move ∈ moves, s.ReachesEnd move) :
    Announces s (s.move it moves save) ∧ Idle (s.move it moves save) := by
  have hsame := move_eq it moves hi save
  have ⟨ha, hi'⟩ := endMove_announces hi hl h
  exact ⟨ha.trans (.of_eq hsame.signals hsame.rowCount_eq), hi'.sameRows hsame⟩

-- Runs.

-- The first rows are not announced as what they are, since a positioner without rows counts one. Nor is it
-- when an icon is taken out of the last row, unless another ends there or behind.
def Event.accountedFor (s : Positioner) : Event → Prop
  | .rowsInserted _ _ => ∃ cell, cell ∈ s.proxyToSource
  | .rowsRemoved first last =>
    (∀ cell, s.remains first last cell → cell ≤ s.lastRow) ∧ ((∃ cell, s.remains first last cell) ∨ 0 ≤ s.lastRow)
  | .convertFolderModelData _ => True
  | .move moves _ => -1 ≤ s.lastRow ∧ (s.LastStays moves ∨ ∃ move ∈ moves, s.ReachesEnd move)

theorem Idle.step {event : Event} {s' : Positioner} (hi : Idle s) (hs : Step it s event s') (h : event.accountedFor s) :
    Announces s s' ∧ Idle s' := by
  cases hs
  case rowsInserted start urls hs hu hn =>
    have ⟨cell, hm⟩ := h
    have ⟨ha, hi⟩ := midInsert_announces it hi hm hn
    have hr := sourceRowsInserted_reapplies it (s.midInsert it start urls hn)
    exact ⟨ha.trans (.reapplies hr), hi.reapplies hr⟩
  case rowsRemoved first last hf hl =>
    have ⟨ha, hi⟩ := midRemove_announces it hi hf h.1 h.2
    have hr := sourceRowsRemoved_reapplies it (s.midRemove it first last hf)
    exact ⟨ha.trans (.reapplies hr), hi.reapplies hr⟩
  case convertFolderModelData positions =>
    have hi' : Idle { s with positions } :=
      ⟨hi.enabled, hi.listing, hi.deferApplyPositions, hi.ignoreNextTransaction, hi.beginInsertRowsCalled⟩
    have ha : Announces s { s with positions } := .of_eq rfl rfl
    exact ⟨ha.trans (.convertFolderModelData it _), hi'.convertFolderModelData it⟩
  case move moves save => exact move_announces it hi save h.1 h.2

inductive Accounted (s₀ : Positioner) : Positioner → Prop
  | refl : Accounted s₀ s₀
  | step {it : Iteration} {event : Event} {s s' : Positioner} (h : Accounted s₀ s) (hs : Step it s event s')
      (ha : event.accountedFor s) : Accounted s₀ s'

theorem rows_announced (s₀ s : Positioner) (hi : Idle s₀) (h : Accounted s₀ s) :
    Announces s₀ s ∧ ∀ it event s', Step it s event s' → event.accountedFor s → Announces s s' := by
  have hrun : Announces s₀ s ∧ Idle s := by
    induction h
    case refl => exact ⟨.of_eq rfl rfl, hi⟩
    case step h hs ha ih =>
      have ⟨ha, hi⟩ := ih.2.step hs ha
      exact ⟨ih.1.trans ha, hi⟩
  exact ⟨hrun.1, fun it event s' hs ha => (hrun.2.step hs ha).1⟩

theorem rows_announced_last_removed :
    Announces (threeFiles.initMaps 3) (((threeFiles.initMaps 3).midRemove inOrder 2 2 le_rfl).sourceRowsRemoved inOrder) :=
  (rows_announced (threeFiles.initMaps 3) (threeFiles.initMaps 3) ⟨rfl, rfl, rfl, rfl, rfl⟩ .refl).2 inOrder (.rowsRemoved 2 2)
    _ (.rowsRemoved le_rfl (by decide))
    ⟨fun cell ⟨row, hrow, _⟩ => le_lastRow (Hash.mem_iff.mpr ⟨row, ((Placed.initMaps threeFiles 3).inverse cell row).mpr hrow⟩),
      .inr (by decide)⟩

def emptyFolder : Positioner where
  folderModel := { urls := [], nodup := List.nodup_nil }

-- One row is announced, and there is one row before and after.
theorem first_row_not_announced :
    Idle emptyFolder ∧
    Step inOrder emptyFolder (.rowsInserted 0 ["a"])
      ((emptyFolder.midInsert inOrder 0 ["a"] (by decide)).sourceRowsInserted inOrder) ∧
    emptyFolder.rowCount = 1 ∧
    ((emptyFolder.midInsert inOrder 0 ["a"] (by decide)).sourceRowsInserted inOrder).signals =
      [.beginInsertRows 0 0, .endInsertRows] ∧
    ((emptyFolder.midInsert inOrder 0 ["a"] (by decide)).sourceRowsInserted inOrder).rowCount = 1 ∧
    ¬Announces emptyFolder ((emptyFolder.midInsert inOrder 0 ["a"] (by decide)).sourceRowsInserted inOrder) := by
  have hsignals : ((emptyFolder.midInsert inOrder 0 ["a"] (by decide)).sourceRowsInserted inOrder).signals =
      [.beginInsertRows 0 0, .endInsertRows] := by decide
  refine ⟨⟨rfl, rfl, rfl, rfl, rfl⟩, .rowsInserted (by decide) (by decide) (by decide), by decide, hsignals, by decide, ?_⟩
  rintro ⟨signals, hs, hr⟩
  rw [hsignals] at hs
  rw [← show _ = signals from hs] at hr
  contradiction

end Folder.Positioner
