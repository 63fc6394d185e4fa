import Mathlib.Data.List.Count
import PlasmaModel.Xwl.Transfer

namespace KWin.Xwl

-- The chunks of a queue are full but for the last one, which is never empty. Once nothing is read any more the last
-- array has been cut to what has been read.
structure Chunk.Filling (reading : Bool) (chunk : Chunk) : Prop where
  pos  : chunk.bytes ≠ []
  le   : chunk.bytes.length ≤ incrChunkSize
  size : chunk.size = if reading then incrChunkSize else chunk.bytes.length

def Chunk.Whole (chunk : Chunk) : Prop :=
  chunk.bytes.length = incrChunkSize ∧ chunk.size = incrChunkSize

def Queue (reading : Bool) (chunks : List Chunk) : Prop :=
  chunks = [] ∨ ∃ front last, chunks = front ++ [last] ∧ (∀ chunk ∈ front, chunk.Whole) ∧ last.Filling reading

variable {chunk : Chunk} {chunks : List Chunk} {reading : Bool}

theorem incrChunkSize_pos : 0 < incrChunkSize := by
  decide

theorem Chunk.isFull_iff : chunk.isFull ↔ chunk.bytes.length = incrChunkSize :=
  decide_eq_true_iff

theorem Chunk.data_of_length (h : chunk.bytes.length = chunk.size) : chunk.data = chunk.bytes.map some := by
  rw [data, ← h, Nat.sub_self, List.replicate_zero, List.append_nil]

theorem Chunk.none_mem_data (h : chunk.bytes.length < chunk.size) : none ∈ chunk.data :=
  List.mem_append_right _ (List.mem_replicate.mpr ⟨by omega, rfl⟩)

theorem Chunk.Whole.filling (h : chunk.Whole) : chunk.Filling reading where
  pos hn := by
    have hl := h.1
    rw [hn] at hl
    exact absurd hl (Nat.ne_of_lt incrChunkSize_pos)
  le := Nat.le_of_eq h.1
  size := by
    split
    case isTrue => exact h.2
    case isFalse => exact h.2.trans h.1.symm

namespace Queue

theorem nil : Queue reading [] :=
  .inl rfl

theorem tail (h : Queue reading (chunk :: chunks)) : Queue reading chunks := by
  have ⟨front, last, he, hf, hl⟩ := h.resolve_left (List.cons_ne_nil _ _)
  cases front with
  | nil =>
    cases he
    exact nil
  | cons _ front =>
    cases he
    exact .inr ⟨front, last, rfl, (List.forall_mem_cons.mp hf).2, hl⟩

theorem filling (h : Queue reading (chunk :: chunks)) : chunk.Filling reading := by
  have ⟨front, last, he, hf, hl⟩ := h.resolve_left (List.cons_ne_nil _ _)
  cases front with
  | nil =>
    cases he
    exact hl
  | cons _ front =>
    cases he
    exact (hf _ List.mem_cons_self).filling

end Queue

namespace TransferWltoX

variable {s s' : TransferWltoX} {front : List Chunk} {last : Chunk} {stream : List UInt8} {contents : List (List (Option UInt8))} {readLen : Nat}

-- What is read next goes to a chunk that has room behind whole ones.
structure Opened (s : TransferWltoX) (front : List Chunk) (last : Chunk) : Prop where
  eq    : s.openChunk = (front, last)
  bytes : s.chunks.flatMap Chunk.bytes = front.flatMap Chunk.bytes ++ last.bytes
  whole : ∀ chunk ∈ front, chunk.Whole
  size  : last.size = incrChunkSize
  lt    : last.bytes.length < incrChunkSize

theorem exists_opened (h : Queue true s.chunks) : ∃ front last, s.Opened front last := by
  cases h with
  | inl hn =>
    refine ⟨[], .new, ?_, ?_, List.forall_mem_nil _, rfl, incrChunkSize_pos⟩
    · rw [openChunk, hn]
      rfl
    · rw [hn]
      rfl
  | inr h =>
    have ⟨front, last, he, hf, hl⟩ := h
    have hlast : s.chunks.getLast? = some last := by rw [he, List.getLast?_concat]
    have hsize : last.size = incrChunkSize := hl.size
    by_cases hfull : last.isFull
    case pos =>
      refine ⟨s.chunks, .new, ?_, (List.append_nil _).symm, ?_, rfl, incrChunkSize_pos⟩
      · rw [openChunk, hlast]
        exact if_pos hfull
      · rw [he]
        exact List.forall_mem_append.mpr
          ⟨hf, List.forall_mem_singleton.mpr ⟨Chunk.isFull_iff.mp hfull, hsize⟩⟩
    case neg =>
      refine ⟨front, last, ?_, ?_, hf, hsize, ?_⟩
      · rw [openChunk, hlast, he, List.dropLast_concat]
        exact if_neg hfull
      · rw [he, List.flatMap_append, List.flatMap_singleton]
      · exact Nat.lt_of_le_of_ne hl.le fun hn => hfull (Chunk.isFull_iff.mpr hn)

def incrHistory (contents : List (List (Option UInt8))) : List XEvent :=
  [.setIncr, .selectionNotify] ++ contents.flatMap fun data => [.deleted, .setData data]

-- The requestor gets the stream in one property, or in several ones, each after it has deleted the one before it, that
-- are not empty, and then one that is.
def Received (stream : List UInt8) (history : List XEvent) : Prop :=
  history = [.setData (stream.map some), .selectionNotify] ∨
    ∃ contents : List (List (Option UInt8)), (∀ data ∈ contents, data ≠ []) ∧
      contents.flatten = stream.map some ∧ history = incrHistory contents ++ [.deleted, .setData []]

def unsent (s : TransferWltoX) : List UInt8 :=
  s.chunks.flatMap Chunk.bytes ++ s.source

structure Plain (stream : List UInt8) (s : TransferWltoX) : Prop where
  incr     : s.incr = false
  notifier : s.notifier = true
  isSet    : s.propertyIsSet = false
  property : s.property = false
  handled  : s.deletions = 0
  history  : s.history = []
  stream   : s.unsent = stream
  queue    : Queue true s.chunks
  short    : s.chunks = [] ∨ ∃ chunk, s.chunks = [chunk] ∧ chunk.isFull = false

structure Loaded (stream : List UInt8) (contents : List (List (Option UInt8))) (s : TransferWltoX) : Prop where
  incr      : s.incr = true
  history   : s.history = incrHistory contents ++ if s.property then [] else [.deleted]
  nonempty  : ∀ data ∈ contents, data ≠ []
  stream    : contents.flatten ++ s.unsent.map some = stream.map some
  isSet     : s.property = true → s.propertyIsSet = true
  deletions : s.deletions = if s.propertyIsSet ∧ s.property = false then 1 else 0
  queue     : Queue s.notifier s.chunks
  atEnd     : s.notifier = false → s.source = []

-- Nothing waits to be sent while the property is not set, but for what a chunk has room for.
structure Incremental (stream : List UInt8) (contents : List (List (Option UInt8))) (s : TransferWltoX) : Prop
    extends s.Loaded stream contents where
  flushes : s.flushPropertyOnDelete = true
  idle    : s.propertyIsSet = false →
    s.notifier = true ∧ (s.chunks = [] ∨ ∃ chunk, s.chunks = [chunk] ∧ chunk.isFull = false)

-- What holds of the states in which every step has been as it should be.
inductive Sound (stream : List UInt8) (s : TransferWltoX) : Prop
  | plain (outcome : s.outcome = none) (h : s.Plain stream)
  | incremental {contents : List (List (Option UInt8))} (outcome : s.outcome = none) (h : s.Incremental stream contents)
  | completed (outcome : s.outcome = some .completed) (h : Received stream s.history)
  | failed (outcome : s.outcome = some .readError ∨ s.outcome = some .timedOut)

-- Nothing that is uninitialised is sent, and the end of the stream is found while a chunk is partly filled.
def SendsRead (s : TransferWltoX) : Event → Prop
  | .read readLen => s.incr = true → readLen = 0 → ∃ chunk, s.chunks.getLast? = some chunk ∧ chunk.isFull = false
  | .propertyNotify => s.incr = true → ∀ chunk, s.chunks.head? = some chunk → chunk.bytes.length = chunk.size
  | _ => True

theorem incrHistory_concat {data : List (Option UInt8)} :
    incrHistory (contents ++ [data]) = incrHistory contents ++ [.deleted, .setData data] := by
  rw [incrHistory, incrHistory, List.flatMap_append, List.flatMap_singleton, List.append_assoc]

theorem flushSourceData_cons (he : s.chunks = chunk :: chunks) : s.flushSourceData =
    { s.changeProperty (.setData chunk.data) with propertyIsSet := true, timeout := false, chunks } := by
  rw [flushSourceData, he]

namespace Opened

variable {bytes : List UInt8}

theorem queue (h : s.Opened front last) (hb : bytes ≠ []) (hl : bytes.length ≤ incrChunkSize - last.bytes.length) :
    Queue true (front ++ [last.append bytes]) := by
  refine .inr ⟨front, _, rfl, h.whole, ⟨fun hn => hb (List.append_eq_nil_iff.mp hn).2, ?_, h.size⟩⟩
  have hlt := h.lt
  rw [Chunk.append, List.length_append]
  omega

theorem queue_shrink (h : s.Opened front last) (hb : last.bytes ≠ []) : Queue false (front ++ [last.shrink]) :=
  .inr ⟨front, _, rfl, h.whole, ⟨hb, Nat.le_of_lt h.lt, rfl⟩⟩

theorem front_eq_nil (h : s.Opened front last)
    (hs : s.chunks = [] ∨ ∃ chunk, s.chunks = [chunk] ∧ chunk.isFull = false) : front = [] := by
  have he := h.eq
  cases hs with
  | inl hn =>
    rw [openChunk, hn] at he
    exact (congrArg Prod.fst he).symm
  | inr hs =>
    have ⟨chunk, hc, hf⟩ := hs
    rw [openChunk, hc] at he
    exact (congrArg Prod.fst ((if_neg (Bool.eq_false_iff.mp hf)).symm.trans he)).symm

theorem flatMap_append (h : s.Opened front last) :
    (front ++ [last.append (s.source.take readLen)]).flatMap Chunk.bytes ++ s.source.drop readLen = s.unsent := by
  rw [unsent, h.bytes, List.flatMap_append, List.flatMap_singleton, Chunk.append]
  simp only [List.append_assoc, List.take_append_drop]

end Opened

theorem readWlSource_eq (h : s.Opened front last) : s.readWlSource readLen =
    let s' := { s with
      source := s.source.drop readLen, chunks := front ++ [last.append (s.source.take readLen)], timeout := false }
    if readLen = 0 then
      let s' := { s' with chunks := front ++ [(last.append (s.source.take readLen)).shrink] }
      if s.incr then
        { s'.flushUnlessSet with notifier := false }
      else
        s'.flushSourceData.sendSelectionNotify.endTransfer .completed
    else if (last.append (s.source.take readLen)).isFull then
      if s.incr then s'.flushUnlessSet else s'.startIncr
    else
      s' := by
  rw [readWlSource, h.eq]

theorem Loaded.unset (h : s.Loaded stream contents) (hu : s.propertyIsSet = false) :
    s.property = false ∧ s.deletions = 0 := by
  have hp : s.property = false := Bool.eq_false_iff.mpr fun hp => Bool.eq_false_iff.mp hu (h.isSet hp)
  have hd := h.deletions
  rw [hu] at hd
  exact ⟨hp, hd⟩

theorem Loaded.flushSourceData (h : s.Loaded stream contents) (hu : s.propertyIsSet = false)
    (hf : s.flushPropertyOnDelete = true) (he : s.chunks = chunk :: chunks) (hc : chunk.bytes.length = chunk.size) :
    s.flushSourceData.Incremental stream (contents ++ [chunk.data]) := by
  have ⟨hp, hd⟩ := h.unset hu
  have hq : Queue s.notifier (chunk :: chunks) := he ▸ h.queue
  have hdata := Chunk.data_of_length hc
  rw [flushSourceData_cons he]
  exact {
    incr := h.incr
    history := by
      have hh := h.history
      rw [hp] at hh
      rw [incrHistory_concat]
      simp [changeProperty, hh]
    nonempty := by
      refine List.forall_mem_append.mpr ⟨h.nonempty, List.forall_mem_singleton.mpr ?_⟩
      rw [hdata]
      exact fun hn => hq.filling.pos (List.map_eq_nil_iff.mp hn)
    stream := by
      have hst := h.stream
      rw [unsent, he, List.flatMap_cons] at hst
      simp only [unsent, changeProperty, List.flatten_append, hdata]
      simpa using hst
    isSet := fun _ => rfl
    deletions := hd
    queue := hq.tail
    atEnd := h.atEnd
    flushes := hf
    idle := fun hn => nomatch hn }

theorem Loaded.flushUnlessSet (h : s.Loaded stream contents)
    (hu : s.propertyIsSet = false → ∃ chunk, s.chunks = [chunk] ∧ chunk.bytes.length = chunk.size) :
    ∃ contents, s.flushUnlessSet.Incremental stream contents := by
  have hf : { s with flushPropertyOnDelete := true }.Loaded stream contents := { h with }
  rw [TransferWltoX.flushUnlessSet]
  split
  case isTrue hset =>
    exact ⟨contents, { hf with flushes := rfl, idle := fun hn => (Bool.eq_false_iff.mp hn hset).elim }⟩
  case isFalse hset =>
    have hset := Bool.eq_false_iff.mpr hset
    have ⟨chunk, he, hc⟩ := hu hset
    exact ⟨_, hf.flushSourceData hset rfl he hc⟩

theorem flushUnlessSet_notifier {b : Bool} :
    { s.flushUnlessSet with notifier := b } = { s with notifier := b }.flushUnlessSet := by
  rw [flushUnlessSet, flushUnlessSet]
  cases s.propertyIsSet with
  | true => rfl
  | false =>
    rw [flushSourceData, flushSourceData]
    cases s.chunks <;> rfl

theorem outcome_flushSourceData : s.flushSourceData.outcome = s.outcome := by
  rw [flushSourceData]
  split <;> rfl

theorem outcome_flushUnlessSet : s.flushUnlessSet.outcome = s.outcome := by
  rw [flushUnlessSet]
  split
  case isTrue => rfl
  case isFalse => exact outcome_flushSourceData

theorem Reads.take_ne_nil (h : s.Reads readLen) (hn : readLen ≠ 0) : s.source.take readLen ≠ [] := by
  have hs : s.source ≠ [] := fun hs => hn (h.2.2.2.mpr hs)
  simp [hn, hs]

theorem Reads.length_take (h : s.Reads readLen) : (s.source.take readLen).length = readLen :=
  List.length_take_of_le h.2.2.1

theorem Reads.queue (h : s.Reads readLen) (ho : s.Opened front last) (hn : readLen ≠ 0) :
    Queue true (front ++ [last.append (s.source.take readLen)]) := by
  refine ho.queue (h.take_ne_nil hn) ?_
  have hl := h.2.1
  rw [ho.eq] at hl
  rwa [h.length_take]

theorem Plain.readWlSource (h : s.Plain stream) (ho : s.outcome = none) (hr : s.Reads readLen) :
    (s.readWlSource readLen).Sound stream := by
  have ⟨front, last, hopen⟩ := s.exists_opened h.queue
  have hbytes : (front ++ [last.append (s.source.take readLen)]).flatMap Chunk.bytes ++ s.source.drop readLen = stream :=
    hopen.flatMap_append.trans h.stream
  have hincr : ¬s.incr = true := Bool.eq_false_iff.mp h.incr
  rw [readWlSource_eq hopen]
  cases hopen.front_eq_nil h.short
  split
  case isTrue h0 =>
    have hdata : (last.append (s.source.take readLen)).shrink.data = stream.map some := by
      rw [hr.2.2.2.mp h0, List.drop_nil, List.append_nil] at hbytes
      rw [Chunk.data_of_length rfl, hr.2.2.2.mp h0, ← hbytes]
      exact congrArg (List.map some) (List.append_nil _).symm
    refine .completed rfl (.inl ?_)
    change (s.history ++ [.setData (last.append (s.source.take readLen)).shrink.data]) ++ [.selectionNotify] = _
    rw [hdata, h.history]
    rfl
  case isFalse h0 =>
    have hq := hr.queue hopen h0
    split
    case isFalse hfull =>
      exact .plain ho { h with stream := hbytes, queue := hq, short := .inr ⟨_, rfl, Bool.eq_false_iff.mpr hfull⟩ }
    case isTrue hfull =>
      refine @Sound.incremental _ _ [] ho {
        incr := rfl
        history := ?_
        nonempty := List.forall_mem_nil _
        stream := congrArg (List.map some) hbytes
        isSet := fun _ => rfl
        deletions := h.handled
        queue := ?_
        atEnd := fun hn => nomatch h.notifier.symm.trans hn
        flushes := rfl
        idle := fun hn => nomatch hn }
      · change (s.history ++ [.setIncr]) ++ [.selectionNotify] = incrHistory [] ++ []
        rw [h.history]
        rfl
      · change Queue s.notifier _
        rw [h.notifier]
        exact hq

theorem Incremental.opened_of_sendsRead (h : s.Incremental stream contents) (hopen : s.Opened front last)
    (hq : s.SendsRead (.read 0)) : last.bytes ≠ [] := by
  have ⟨chunk, hc, hf⟩ := hq h.incr rfl
  have he : (s.chunks.dropLast, chunk) = (front, last) := by
    rw [← hopen.eq, openChunk, hc]
    exact (if_neg (Bool.eq_false_iff.mp hf)).symm
  cases he
  have hqueue := h.queue
  have ⟨_, last, he, _, hl⟩ := hqueue.resolve_left fun hn => by rw [hn] at hc; cases hc
  rw [he, List.getLast?_concat] at hc
  cases hc
  exact hl.pos

theorem Incremental.readWlSource (h : s.Incremental stream contents) (ho : s.outcome = none) (hr : s.Reads readLen)
    (hq : s.SendsRead (.read readLen)) : (s.readWlSource readLen).Sound stream := by
  have hn : s.notifier = true := hr.1
  have ⟨front, last, hopen⟩ := s.exists_opened (hn ▸ h.queue)
  have hbytes : (front ++ [last.append (s.source.take readLen)]).flatMap Chunk.bytes ++ s.source.drop readLen =
      s.unsent := hopen.flatMap_append
  rw [readWlSource_eq hopen]
  split
  case isTrue h0 =>
    subst h0
    have hlast := h.opened_of_sendsRead hopen hq
    have hs := hr.2.2.2.mp rfl
    have happend : last.append (s.source.take 0) = last := congrArg (Chunk.mk · last.size) (List.append_nil last.bytes)
    rw [happend] at hbytes ⊢
    have hl : { s with
        source := s.source.drop 0, chunks := front ++ [last.shrink], timeout := false
        notifier := false }.Loaded stream contents := {
      h with
      stream := by
        have hst := h.stream
        rw [← hbytes, List.flatMap_append] at hst
        rwa [unsent, List.flatMap_append]
      queue := hopen.queue_shrink hlast
      atEnd := fun _ => hs }
    dsimp only
    rw [if_pos h.incr, flushUnlessSet_notifier]
    have ⟨_, hi⟩ := hl.flushUnlessSet fun hu => ⟨last.shrink, by rw [hopen.front_eq_nil (h.idle hu).2]; rfl, rfl⟩
    exact .incremental (outcome_flushUnlessSet.trans ho) hi
  case isFalse h0 =>
    have hqueue := hr.queue hopen h0
    have hl : { s with
        source := s.source.drop readLen
        chunks := front ++ [last.append (s.source.take readLen)]
        timeout := false }.Loaded stream contents := {
      h with
      stream := by
        have hs := h.stream
        rwa [← hbytes] at hs
      queue := by
        change Queue s.notifier _
        rwa [hn]
      atEnd := fun hf => nomatch hn.symm.trans hf }
    split
    case isTrue hfull =>
      dsimp only
      rw [if_pos h.incr]
      have ⟨_, hi⟩ := hl.flushUnlessSet fun hu => ⟨_, by rw [hopen.front_eq_nil (h.idle hu).2]; rfl,
        (Chunk.isFull_iff.mp hfull).trans hopen.size.symm⟩
      exact .incremental (outcome_flushUnlessSet.trans ho) hi
    case isFalse hfull =>
      refine .incremental ho { hl with flushes := h.flushes, idle := fun hu => ⟨hn, .inr ⟨_, ?_, Bool.eq_false_iff.mpr hfull⟩⟩ }
      rw [hopen.front_eq_nil (h.idle hu).2]
      rfl

theorem Incremental.deleteProperty (h : s.Incremental stream contents) (hp : s.property = true) :
    { s with property := false, deletions := s.deletions + 1, history := s.history ++ [XEvent.deleted] }.Incremental
      stream contents where
  incr      := h.incr
  flushes   := h.flushes
  nonempty  := h.nonempty
  stream    := h.stream
  isSet hn  := nomatch hn
  queue     := h.queue
  atEnd     := h.atEnd
  idle      := h.idle
  history := by
    have hh := h.history
    rw [hp] at hh
    exact congrArg (· ++ [XEvent.deleted]) (hh.trans (List.append_nil _))
  deletions := by
    have hd := h.deletions
    rw [hp] at hd
    simp [hd, h.isSet hp]

-- A deletion that has not been handled is one of the property that is set.
theorem Incremental.handled (h : s.Incremental stream contents) (hd : 0 < s.deletions) :
    s.deletions = 1 ∧ s.propertyIsSet = true ∧ s.property = false := by
  rw [h.deletions] at hd ⊢
  split at hd
  case isTrue hs => exact ⟨if_pos hs, hs⟩
  case isFalse => cases hd

theorem Incremental.propertyNotify (h : s.Incremental stream contents) (ho : s.outcome = none) (hd : 0 < s.deletions)
    (hq : s.SendsRead .propertyNotify) :
    ({ s with deletions := s.deletions - 1 }.handlePropertyDelete).Sound stream := by
  have ⟨hone, _, hp⟩ := h.handled hd
  have hhistory : s.history = incrHistory contents ++ [.deleted] := by
    rw [h.history, hp]
    rfl
  have hl : { s with deletions := s.deletions - 1, propertyIsSet := false }.Loaded stream contents := {
    h with
    isSet := fun hn => nomatch hp.symm.trans hn
    deletions := by rw [hone]; rfl }
  rw [handlePropertyDelete]
  dsimp only
  rw [if_pos h.incr, if_pos h.flushes]
  split
  case isTrue hend =>
    have ⟨hn, hc⟩ := hend
    refine .completed rfl (.inr ⟨contents, h.nonempty, ?_, ?_⟩)
    · have hs := h.stream
      rw [unsent, hc, h.atEnd hn] at hs
      exact (List.append_nil _).symm.trans hs
    · change s.history ++ [.setData []] = _
      rw [hhistory, List.append_assoc]
      rfl
  case isFalse hmore =>
    split
    case isTrue hc =>
      have ⟨chunk, chunks, hc⟩ := List.exists_cons_of_ne_nil hc
      have hlength := hq h.incr chunk (by rw [hc]; rfl)
      exact .incremental (outcome_flushSourceData.trans ho) (hl.flushSourceData rfl h.flushes hc hlength)
    case isFalse hc =>
      have hc := of_not_not hc
      refine .incremental ho { hl with flushes := h.flushes, idle := fun _ => ⟨?_, .inl hc⟩ }
      exact Bool.not_eq_false _ |>.mp fun hn => hmore ⟨hn, hc⟩

theorem handleTimeout_cases (s : TransferWltoX) :
    s.handleTimeout.outcome = some .timedOut ∨ s.handleTimeout = { s with timeout := true } := by
  rw [handleTimeout]
  split
  case isTrue => exact .inl rfl
  case isFalse => exact .inr rfl

theorem step_eq_some_iff {event : Event} : s.step event = some s' ↔ s.outcome = none ∧ s.handle event = some s' :=
  Option.ite_none_right_eq_some

theorem Sound.step {event : Event} (h : s.Sound stream) (hq : s.SendsRead event) (hs : s.step event = some s') :
    s'.Sound stream := by
  have ⟨ho, hs⟩ := step_eq_some_iff.mp hs
  have hended {outcome : Outcome} (hend : s.outcome = some outcome) : s'.Sound stream := nomatch ho.symm.trans hend
  cases h with
  | completed hend => exact hended hend
  | failed hend => exact hend.elim hended hended
  | plain _ h =>
    cases event with
    | read readLen =>
      have ⟨hr, hs⟩ := Option.ite_none_right_eq_some.mp hs
      cases hs
      exact h.readWlSource ho hr
    | readError =>
      have ⟨_, hs⟩ := Option.ite_none_right_eq_some.mp hs
      cases hs
      exact .failed (.inl rfl)
    | deleteProperty =>
      have ⟨hp, _⟩ := Option.ite_none_right_eq_some.mp hs
      exact nomatch h.property.symm.trans hp
    | propertyNotify =>
      have ⟨hd, _⟩ := Option.ite_none_right_eq_some.mp hs
      exact absurd h.handled (Nat.ne_of_gt hd)
    | timeout =>
      cases hs
      cases s.handleTimeout_cases with
      | inl ht => exact .failed (.inr ht)
      | inr ht => exact ht ▸ .plain ho { h with }
  | incremental _ h =>
    cases event with
    | read readLen =>
      have ⟨hr, hs⟩ := Option.ite_none_right_eq_some.mp hs
      cases hs
      exact h.readWlSource ho hr hq
    | readError =>
      have ⟨_, hs⟩ := Option.ite_none_right_eq_some.mp hs
      cases hs
      exact .failed (.inl rfl)
    | deleteProperty =>
      have ⟨hp, hs⟩ := Option.ite_none_right_eq_some.mp hs
      cases hs
      exact .incremental ho (h.deleteProperty hp)
    | propertyNotify =>
      have ⟨hd, hs⟩ := Option.ite_none_right_eq_some.mp hs
      cases hs
      exact h.propertyNotify ho hd hq
    | timeout =>
      cases hs
      cases s.handleTimeout_cases with
      | inl ht => exact .failed (.inr ht)
      | inr ht => exact ht ▸ .incremental ho { h with }

end TransferWltoX
end KWin.Xwl
