import PlasmaModel.Xwl.Theorems.Transfer

namespace KWin.Xwl.TransferWltoX

variable {s s' : TransferWltoX} {stream : List UInt8} {contents : List (List (Option UInt8))} {readLen : Nat}

theorem flushSourceData_grows : s.history <+: s.flushSourceData.history := by
  rw [flushSourceData]
  split
  case h_1 => exact List.prefix_append _ _
  case h_2 => exact List.prefix_rfl

theorem flushUnlessSet_grows : s.history <+: s.flushUnlessSet.history := by
  rw [flushUnlessSet]
  split
  case isTrue => exact List.prefix_rfl
  case isFalse => exact flushSourceData_grows (s := { s with flushPropertyOnDelete := true })

theorem readWlSource_grows : s.history <+: (s.readWlSource readLen).history := by
  rw [readWlSource]
  generalize s.openChunk = chunks
  obtain ⟨front, last⟩ := chunks
  dsimp only
  split
  case isTrue =>
    split
    case isTrue => exact flushUnlessSet_grows (s := { s with source := _, chunks := _, timeout := false })
    case isFalse =>
      exact (flushSourceData_grows (s := { s with source := _, chunks := _, timeout := false })).trans
        (List.prefix_append _ _)
  case isFalse =>
    split
    case isTrue =>
      split
      case isTrue => exact flushUnlessSet_grows (s := { s with source := _, chunks := _, timeout := false })
      case isFalse => exact (List.prefix_append _ _).trans (List.prefix_append _ _)
    case isFalse => exact List.prefix_rfl

theorem handlePropertyDelete_grows : s.history <+: s.handlePropertyDelete.history := by
  rw [handlePropertyDelete]
  split
  case isFalse => exact List.prefix_rfl
  case isTrue =>
    dsimp only
    split
    case isFalse => exact List.prefix_rfl
    case isTrue =>
      split
      case isTrue => exact List.prefix_append _ _
      case isFalse =>
        split
        case isTrue => exact flushSourceData_grows (s := { s with propertyIsSet := false })
        case isFalse => exact List.prefix_rfl

theorem step_grows {event : Event} (hs : s.step event = some s') : s.history <+: s'.history := by
  have ⟨_, hs⟩ := step_eq_some_iff.mp hs
  cases event with
  | read readLen =>
    have ⟨_, hs⟩ := Option.ite_none_right_eq_some.mp hs
    cases hs
    exact readWlSource_grows
  | readError =>
    have ⟨_, hs⟩ := Option.ite_none_right_eq_some.mp hs
    cases hs
    exact List.prefix_rfl
  | deleteProperty =>
    have ⟨_, hs⟩ := Option.ite_none_right_eq_some.mp hs
    cases hs
    exact List.prefix_append _ _
  | propertyNotify =>
    have ⟨_, hs⟩ := Option.ite_none_right_eq_some.mp hs
    cases hs
    exact handlePropertyDelete_grows (s := { s with deletions := s.deletions - 1 })
  | timeout =>
    cases hs
    rw [handleTimeout]
    split <;> exact List.prefix_rfl

-- What can no longer become what the requestor is to get. An empty property has been sent before the last one, or its
-- chunk waits to be sent.
inductive Spoiled (s : TransferWltoX) : Prop
  | garbage {data : List (Option UInt8)} (sent : .setData data ∈ s.history) (h : none ∈ data)
  | empty (outcome : s.outcome = none) (incr : s.incr = true) (notifier : s.notifier = false)
    (h : .setData [] ∈ s.history ∨ ∃ chunk ∈ s.chunks, chunk.data = [])
  | twice (h : 2 ≤ s.history.count (.setData []))
  | failed (outcome : s.outcome = some .readError ∨ s.outcome = some .timedOut)

theorem mem_incrHistory {data : List (Option UInt8)} : .setData data ∈ incrHistory contents ↔ data ∈ contents := by
  simp [incrHistory]

theorem Received.count (h : Received stream s.history) : s.history.count (.setData []) ≤ 1 := by
  cases h with
  | inl h =>
    rw [h, List.count_cons, List.count_eq_zero_of_not_mem (by simp), Nat.zero_add]
    split
    case isTrue => exact Nat.le_refl 1
    case isFalse => exact Nat.zero_le 1
  | inr h =>
    have ⟨contents, hn, _, h⟩ := h
    have hc : (incrHistory contents).count (.setData []) = 0 :=
      List.count_eq_zero_of_not_mem fun hm => hn _ (mem_incrHistory.mp hm) rfl
    rw [h, List.count_append, hc]
    decide

theorem Received.initialised (h : Received stream s.history) {data : List (Option UInt8)}
    (hd : .setData data ∈ s.history) : none ∉ data := by
  have hstream : none ∉ stream.map some := by simp
  cases h with
  | inl h =>
    rw [h] at hd
    have hd : data = stream.map some := by simpa using hd
    exact hd ▸ hstream
  | inr h =>
    have ⟨contents, _, hs, h⟩ := h
    rw [h, List.mem_append, mem_incrHistory] at hd
    cases hd with
    | inl hd => exact fun hn => hstream (hs ▸ List.mem_flatten.mpr ⟨data, hd, hn⟩)
    | inr hd =>
      have hd : data = [] := by simpa using hd
      exact hd ▸ List.not_mem_nil

theorem Spoiled.flushSourceData (ho : s.outcome = none) (hi : s.incr = true) (hn : s.notifier = false)
    (h : .setData [] ∈ s.history ∨ ∃ chunk ∈ s.chunks, chunk.data = []) : s.flushSourceData.Spoiled := by
  cases h with
  | inl h =>
    rw [TransferWltoX.flushSourceData]
    split
    case h_1 => exact .empty ho hi hn (.inl (List.mem_append_left _ h))
    case h_2 => exact .empty ho hi hn (.inl h)
  | inr h =>
    obtain ⟨chunk, hc, hd⟩ := h
    obtain ⟨first, chunks, he⟩ := List.exists_cons_of_ne_nil (List.ne_nil_of_mem hc)
    rw [he] at hc
    rw [flushSourceData_cons he]
    cases List.mem_cons.mp hc with
    | inl hc => exact .empty ho hi hn (.inl (List.mem_append_right _ (List.mem_singleton.mpr (by rw [← hd, hc]))))
    | inr hc => exact .empty ho hi hn (.inr ⟨chunk, hc, hd⟩)

theorem Spoiled.flushUnlessSet (ho : s.outcome = none) (hi : s.incr = true) (hn : s.notifier = false)
    (h : .setData [] ∈ s.history ∨ ∃ chunk ∈ s.chunks, chunk.data = []) : s.flushUnlessSet.Spoiled := by
  rw [TransferWltoX.flushUnlessSet]
  split
  case isTrue => exact .empty ho hi hn h
  case isFalse => exact Spoiled.flushSourceData (s := { s with flushPropertyOnDelete := true }) ho hi hn h

theorem Spoiled.propertyNotify (ho : s.outcome = none) (hi : s.incr = true) (hn : s.notifier = false)
    (h : .setData [] ∈ s.history ∨ ∃ chunk ∈ s.chunks, chunk.data = []) : s.handlePropertyDelete.Spoiled := by
  rw [handlePropertyDelete, if_pos hi]
  dsimp only
  split
  case isFalse => exact .empty ho hi hn h
  case isTrue =>
    split
    case isTrue hend =>
      have hm : .setData [] ∈ s.history := h.resolve_right (by simp [hend.2])
      refine .twice ?_
      change 2 ≤ (s.history ++ [XEvent.setData []]).count (.setData [])
      rw [List.count_append, List.count_singleton_self]
      exact Nat.succ_le_succ (List.count_pos_iff.mpr hm)
    case isFalse =>
      split
      case isTrue => exact Spoiled.flushSourceData (s := { s with propertyIsSet := false }) ho hi hn h
      case isFalse => exact .empty ho hi hn h

theorem Spoiled.step {event : Event} (h : s.Spoiled) (hs : s.step event = some s') : s'.Spoiled := by
  have hgrows := step_grows hs
  have ⟨ho, hs⟩ := step_eq_some_iff.mp hs
  cases h with
  | garbage hd hn => exact .garbage (hgrows.subset hd) hn
  | twice h => exact .twice (Nat.le_trans h (hgrows.sublist.count_le _))
  | failed h => exact h.elim (fun h => nomatch ho.symm.trans h) fun h => nomatch ho.symm.trans h
  | empty _ hi hn h =>
    cases event with
    | read readLen =>
      have ⟨hr, _⟩ := Option.ite_none_right_eq_some.mp hs
      exact nomatch hn.symm.trans hr.1
    | readError =>
      have ⟨hr, _⟩ := Option.ite_none_right_eq_some.mp hs
      exact nomatch hn.symm.trans hr
    | deleteProperty =>
      have ⟨_, hs⟩ := Option.ite_none_right_eq_some.mp hs
      cases hs
      exact .empty ho hi hn (h.imp_left (List.mem_append_left _))
    | propertyNotify =>
      have ⟨_, hs⟩ := Option.ite_none_right_eq_some.mp hs
      cases hs
      exact propertyNotify (s := { s with deletions := s.deletions - 1 }) ho hi hn h
    | timeout =>
      cases hs
      cases s.handleTimeout_cases with
      | inl ht => exact .failed (.inr ht)
      | inr ht => exact ht ▸ .empty ho hi hn h

theorem openChunk_of_full (h : ¬∃ chunk, s.chunks.getLast? = some chunk ∧ chunk.isFull = false) :
    s.openChunk = (s.chunks, .new) := by
  rw [openChunk]
  split
  case h_1 last hl =>
    apply if_pos
    exact Bool.not_eq_false _ |>.mp fun hf => h ⟨last, hl, hf⟩
  case h_2 hn => rw [List.getLast?_eq_none_iff.mp hn]

-- The chunk for what there is no more of stays empty.
theorem Incremental.readWlSource_spoiled (h : s.Incremental stream contents) (ho : s.outcome = none)
    (hq : ¬∃ chunk, s.chunks.getLast? = some chunk ∧ chunk.isFull = false) : (s.readWlSource 0).Spoiled := by
  rw [TransferWltoX.readWlSource, openChunk_of_full hq]
  dsimp only
  rw [if_pos rfl, if_pos h.incr, flushUnlessSet_notifier]
  exact Spoiled.flushUnlessSet ho h.incr rfl (.inr ⟨_, List.mem_append_right _ (List.mem_singleton_self _), rfl⟩)

theorem Incremental.propertyNotify_spoiled (h : s.Incremental stream contents) {chunk : Chunk}
    (hc : s.chunks.head? = some chunk) (hl : chunk.bytes.length ≠ chunk.size) :
    ({ s with deletions := s.deletions - 1 }.handlePropertyDelete).Spoiled := by
  have ⟨chunks, hc⟩ := List.head?_eq_some_iff.mp hc
  have hne : s.chunks ≠ [] := hc ▸ List.cons_ne_nil _ _
  have hf : chunk.Filling s.notifier := Queue.filling (hc ▸ h.queue)
  have hlt : chunk.bytes.length < chunk.size := by
    have hsize := hf.size
    split at hsize
    case isTrue => exact Nat.lt_of_le_of_ne (hsize ▸ hf.le) hl
    case isFalse => exact absurd hsize.symm hl
  rw [handlePropertyDelete]
  dsimp only
  rw [if_pos h.incr, if_pos h.flushes, if_neg fun hend => hne hend.2, if_pos hne,
    flushSourceData_cons (s := { s with deletions := s.deletions - 1, propertyIsSet := false }) hc]
  exact .garbage (List.mem_append_right _ (List.mem_singleton_self _)) (Chunk.none_mem_data hlt)

theorem Sound.spoiled {event : Event} (h : s.Sound stream) (hq : ¬s.SendsRead event) (hs : s.step event = some s') :
    s'.Spoiled := by
  have ⟨ho, hs⟩ := step_eq_some_iff.mp hs
  have hended {outcome : Outcome} (hend : s.outcome = some outcome) : s'.Spoiled := nomatch ho.symm.trans hend
  cases h with
  | completed hend => exact hended hend
  | failed hend => exact hend.elim hended hended
  | plain _ h =>
    cases event with
    | read => exact absurd (fun hi => nomatch h.incr.symm.trans hi) hq
    | propertyNotify => exact absurd (fun hi => nomatch h.incr.symm.trans hi) hq
    | readError => exact absurd trivial hq
    | deleteProperty => exact absurd trivial hq
    | timeout => exact absurd trivial hq
  | incremental _ h =>
    cases event with
    | read readLen =>
      have ⟨_, hs⟩ := Option.ite_none_right_eq_some.mp hs
      have ⟨_, hfull⟩ := Classical.not_imp.mp hq
      have ⟨h0, hfull⟩ := Classical.not_imp.mp hfull
      cases hs
      exact h0 ▸ h.readWlSource_spoiled ho hfull
    | propertyNotify =>
      have ⟨_, hs⟩ := Option.ite_none_right_eq_some.mp hs
      have ⟨_, hhead⟩ := Classical.not_imp.mp hq
      have ⟨chunk, hhead⟩ := Classical.not_forall.mp hhead
      have ⟨hc, hl⟩ := Classical.not_imp.mp hhead
      cases hs
      exact h.propertyNotify_spoiled hc hl
    | readError => exact absurd trivial hq
    | deleteProperty => exact absurd trivial hq
    | timeout => exact absurd trivial hq

theorem start_sound : (start stream).Sound stream :=
  .plain rfl ⟨rfl, rfl, rfl, rfl, rfl, rfl, rfl, .nil, .inl rfl⟩

theorem received_iff {events : List Event}
    (hr : Machine.run step (fun _ _ => True) (start stream) events = some s) (hc : s.outcome = some .completed) :
    Received stream s.history ↔ Machine.EachStep step SendsRead (start stream) events := by
  cases Machine.run_keeps_or_spoils (Q := SendsRead) events start_sound hr
    (fun h hs => ⟨fun hq => h.step hq hs, fun hq => h.spoiled hq hs⟩) fun h hs => h.step hs with
  | inl h =>
    refine iff_of_true ?_ h.1
    cases h.2 with
    | completed _ h => exact h
    | plain ho => exact nomatch ho.symm.trans hc
    | incremental ho => exact nomatch ho.symm.trans hc
    | failed ho => exact ho.elim (fun ho => nomatch ho.symm.trans hc) fun ho => nomatch ho.symm.trans hc
  | inr h =>
    refine iff_of_false (fun hr => ?_) h.1
    cases h.2 with
    | garbage hd hn => exact hr.initialised hd hn
    | twice ht => exact absurd (Nat.le_trans ht hr.count) (by decide)
    | empty ho => exact nomatch ho.symm.trans hc
    | failed ho => exact ho.elim (fun ho => nomatch ho.symm.trans hc) fun ho => nomatch ho.symm.trans hc

-- A short stream that is read at once.
theorem received_iff_short :
    ∃ s, Machine.run step (fun _ _ => True) (start [104, 105]) [.read 2, .read 0] = some s ∧
      s.outcome = some .completed ∧ (Received [104, 105] s.history ↔
        Machine.EachStep step SendsRead (start [104, 105]) [.read 2, .read 0]) :=
  have hr : Machine.run step (fun _ _ => True) (start [104, 105]) [.read 2, .read 0] = some _ := rfl
  ⟨_, hr, rfl, received_iff hr rfl⟩

-- A stream of just one chunk, of which every part is deleted as soon as the requestor has it.
def chunkEvents : List Event :=
  [.read incrChunkSize, .read 0, .deleteProperty, .propertyNotify, .deleteProperty, .propertyNotify, .deleteProperty,
    .propertyNotify]

theorem run_chunkEvents (h : stream.length = incrChunkSize) :
    ∃ s, Machine.run step (fun _ _ => True) (start stream) chunkEvents = some s ∧ s.outcome = some .completed ∧
      [XEvent.setData [], .setData []].Sublist s.history := by
  have hne : stream ≠ [] := List.ne_nil_of_length_pos (h ▸ incrChunkSize_pos)
  let full : Chunk := ⟨stream, incrChunkSize⟩
  let started : TransferWltoX :=
    { source := [], chunks := [full], propertyIsSet := true, flushPropertyOnDelete := true, incr := true
      property := true, history := [.setIncr, .selectionNotify] }
  let ended : TransferWltoX := { started with chunks := [full, ⟨[], 0⟩], notifier := false }
  have hfull : full.isFull := Chunk.isFull_iff.mpr h
  have hfirst : step (start stream) (.read incrChunkSize) = some started := by
    have hr : (start stream).Reads incrChunkSize :=
      ⟨rfl, Nat.le_refl _, Nat.le_of_eq h.symm, iff_of_false (Nat.ne_of_gt incrChunkSize_pos) hne⟩
    have hlast : Chunk.new.append ((start stream).source.take incrChunkSize) = full :=
      congrArg (Chunk.mk · incrChunkSize) (List.take_of_length_le (Nat.le_of_eq h))
    have hd : (start stream).source.drop incrChunkSize = [] := List.drop_of_length_le (Nat.le_of_eq h)
    have hopen : (start stream).openChunk = ([], .new) := rfl
    refine step_eq_some_iff.mpr ⟨rfl, Option.ite_none_right_eq_some.mpr ⟨hr, congrArg some ?_⟩⟩
    rw [readWlSource, hopen]
    dsimp only
    rw [hlast, hd, if_neg (Nat.ne_of_gt incrChunkSize_pos), if_pos hfull]
    rfl
  have hsecond : step started (.read 0) = some ended := by
    have hopen : started.openChunk = ([full], .new) := if_pos hfull
    have hr : started.Reads 0 := ⟨rfl, Nat.zero_le _, Nat.zero_le _, iff_of_true rfl rfl⟩
    refine step_eq_some_iff.mpr ⟨rfl, Option.ite_none_right_eq_some.mpr ⟨hr, congrArg some ?_⟩⟩
    rw [readWlSource, hopen]
    rfl
  have hrun : Machine.run step (fun _ _ => True) (start stream) chunkEvents =
      Machine.run step (fun _ _ => True) ended [.deleteProperty, .propertyNotify, .deleteProperty, .propertyNotify,
        .deleteProperty, .propertyNotify] := by
    rw [chunkEvents, Machine.run, if_pos trivial, hfirst, Option.bind_some, Machine.run, if_pos trivial, hsecond,
      Option.bind_some]
  have hrest : Machine.run step (fun _ _ => True) ended [.deleteProperty, .propertyNotify, .deleteProperty,
      .propertyNotify, .deleteProperty, .propertyNotify] = some _ := rfl
  exact ⟨_, hrun.trans hrest, rfl,
    .cons _ (.cons _ (.cons _ (.cons _ (.cons _ (.cons_cons _ (.cons _ (.cons_cons _ .slnil)))))))⟩

theorem not_received :
    ∃ s, Machine.run step (fun _ _ => True) (start (List.replicate incrChunkSize 0)) chunkEvents = some s ∧
      s.outcome = some .completed ∧ ¬Received (List.replicate incrChunkSize 0) s.history := by
  have ⟨s, hr, hc, hs⟩ := run_chunkEvents (List.length_replicate (n := incrChunkSize) (a := (0 : UInt8)))
  exact ⟨s, hr, hc, fun h => absurd (Nat.le_trans (hs.count_le (.setData [])) h.count) (by decide)⟩

end KWin.Xwl.TransferWltoX
