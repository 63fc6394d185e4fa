import PlasmaModel.Lib.Runs
import PlasmaModel.Libwayland.Theorems.TimerHeap

namespace Libwayland.EventLoop

variable {s s' : EventLoop} {id id' : ℕ} {kind : SourceKind} {source : EventSource}

-- No function is called of a source that was removed before.
def NeverCalledAgain (s : EventLoop) : Prop :=
  s.log.Pairwise fun later earlier => ∀ id phase, earlier = .removed id → later ≠ .called phase id

-- What the walks of the loop come to, those that are under way and those still to be made.
def reachable (s : EventLoop) : List ℕ :=
  (match s.control with
    | .idleCall _ id => [id]
    | .timerCall id due => id :: due
    | .batchCall id => [id]
    | .recheckCall id next _ => id :: (match next with | .source id => [id] | _ => [])
    | _ => []) ++
  s.pending ++ s.checkList ++ s.idleList ++ s.timers.data ++ s.destroyList

def NoneDangling (s : EventLoop) : Prop :=
  ∀ id ∈ s.reachable, s.sources id ≠ none

def InBatch : Control → Bool
  | .timerCall _ _ | .batchCall _ => true
  | _ => false

-- The loop has dispatched every event it has come to once, unless the source was removed, and it comes to all.
structure Served (s : EventLoop) : Prop where
  once : ∀ id ∈ s.ready, s.served.count id ≤ 1
  all  : ∀ id ∈ s.ready, id ∉ s.pending → s.Removed id ∨ s.served.count id = 1
  done : InBatch s.control = false → s.pending = []

structure Correct (s : EventLoop) : Prop where
  neverCalledAgain : s.NeverCalledAgain
  noneDangling     : s.NoneDangling
  served           : s.Served

-- What the file descriptor of a source tells.
def OpenFd : SourceKind → ℤ → Prop
  | .fd, fd | .signal, fd => 0 ≤ fd
  | .timer, fd | .idle, fd => fd = -1

def closedFd : SourceKind → ℤ
  | .timer => timerRemoved
  | _ => -1

-- What holds wherever the loop is.
structure Sound (s : EventLoop) : Prop where
  fresh       : ∀ id, s.nextSource ≤ id → s.sources id = none ∧ ¬s.Removed id
  isOpen      : ∀ id source, s.sources id = some source → ¬s.Removed id → OpenFd source.kind source.fd
  isClosed    : ∀ id source, s.sources id = some source → s.Removed id → source.fd = closedFd source.kind
  check       : ∀ id ∈ s.checkList, s.Live id
  idle        : ∀ id ∈ s.idleList, s.Live id
  timer       : ∀ id ∈ s.timers.data, s.Live id ∧ s.HasKind .timer id
  destroy     : ∀ id ∈ s.destroyList, s.sources id ≠ none ∧ s.Removed id
  checkNodup  : s.checkList.Nodup
  idleNodup   : s.idleList.Nodup
  consistent  : s.timers.Consistent
  log         : s.NeverCalledAgain
  pending     : ∀ id ∈ s.pending, s.HasKind .fd id ∨ s.HasKind .signal id
  servedNodup : (s.pending ++ s.served).Nodup
  served      : ∀ id ∈ s.ready, id ∈ s.pending ∨ id ∈ s.served ∨ s.Removed id

-- Where the loop waits.
def Waits (s : EventLoop) : Control → Prop
  | .outside | .polling => s.pending = []
  | .idleCall _ id => s.Live id ∧ s.pending = []
  | .timerCall id due => ∀ t ∈ id :: due, s.HasKind .timer t
  | .batchCall id => s.sources id ≠ none
  | .recheckCall id next _ =>
    s.sources id ≠ none ∧ s.pending = [] ∧ (next = .checkList ∨ ∃ n ∈ s.checkList, next = .source n)
  | .crashed => False

structure Inv (s : EventLoop) : Prop where
  sound : s.Sound
  waits : s.Waits s.control

theorem HasKind.ne_none (h : s.HasKind kind id) : s.sources id ≠ none := by
  intro hn
  rw [HasKind, hn] at h
  cases h

theorem hasKind_iff : s.HasKind kind id ↔ ∃ source, s.sources id = some source ∧ source.kind = kind :=
  Option.map_eq_some_iff

theorem Inv.correct (h : s.Inv) : s.Correct := by
  have hs := h.sound
  have hw := h.waits
  refine ⟨hs.log, fun id hid => ?dangling, ?once, ?all, ?done⟩
  case dangling =>
    simp only [reachable, List.mem_append] at hid
    rcases hid with ((((hid | hid) | hid) | hid) | hid) | hid
    · cases hc : s.control <;> rw [hc] at hw hid
      case idleCall =>
        rw [List.mem_singleton.mp hid]
        exact hw.1.1
      case timerCall => exact (hw id hid).ne_none
      case batchCall =>
        rw [List.mem_singleton.mp hid]
        exact hw
      case recheckCall id' next _ =>
        cases List.mem_cons.mp hid with
        | inl heq => exact heq ▸ hw.1
        | inr hid =>
          rcases hw.2.2 with rfl | ⟨n, hn, rfl⟩
          · cases hid
          · exact List.mem_singleton.mp hid ▸ (hs.check n hn).1
      all_goals cases hid
    · exact (hs.pending id hid).elim HasKind.ne_none HasKind.ne_none
    · exact (hs.check id hid).1
    · exact (hs.idle id hid).1
    · exact (hs.timer id hid).1.1
    · exact (hs.destroy id hid).1
  case once => exact fun id _ => List.nodup_iff_count_le_one.mp (List.nodup_append.mp hs.servedNodup).2.1 id
  case all =>
    intro id hid hp
    have hc := List.nodup_iff_count_le_one.mp (List.nodup_append.mp hs.servedNodup).2.1 id
    cases (hs.served id hid).resolve_left hp with
    | inl hm => exact .inr (Nat.le_antisymm hc (List.count_pos_iff.mpr hm))
    | inr hr => exact .inl hr
  case done =>
    intro hb
    cases hc : s.control <;> rw [hc] at hw hb
    case outside => exact hw
    case polling => exact hw
    case idleCall => exact hw.2
    case timerCall => cases hb
    case batchCall => cases hb
    case recheckCall => exact hw.2.1
    case crashed => exact hw.elim

section Loop

theorem Sound.call {phase : Phase} {control : Control} (h : s.Sound) (hr : ¬s.Removed id) :
    (s.call phase id control).Sound := by
  have hrem (i) : (s.call phase id control).Removed i ↔ s.Removed i := by
    simp [Removed, EventLoop.call]
  have hlive (i) : (s.call phase id control).Live i ↔ s.Live i := and_congr_right fun _ => not_congr (hrem i)
  exact {
    fresh := fun i hi => ⟨(h.fresh i hi).1, (hrem i).not.mpr (h.fresh i hi).2⟩
    isOpen := fun i source hs hn => h.isOpen i source hs ((hrem i).not.mp hn)
    isClosed := fun i source hs hn => h.isClosed i source hs ((hrem i).mp hn)
    check := fun i hi => (hlive i).mpr (h.check i hi)
    idle := fun i hi => (hlive i).mpr (h.idle i hi)
    timer := fun i hi => ⟨(hlive i).mpr (h.timer i hi).1, (h.timer i hi).2⟩
    destroy := fun i hi => ⟨(h.destroy i hi).1, (hrem i).mpr (h.destroy i hi).2⟩
    checkNodup := h.checkNodup
    idleNodup := h.idleNodup
    consistent := h.consistent
    log := List.pairwise_cons.mpr ⟨fun _ hm i _ heq hcall => by
      cases hcall
      exact hr (by rw [Removed, ← heq]; exact hm), h.log⟩
    pending := h.pending
    servedNodup := h.servedNodup
    served := fun i hi => (h.served i hi).imp_right (Or.imp_right (hrem i).mpr)
  }

-- The link of a source in the check list leads to another one, or to the end.
theorem nodeAfter_mem {l : List ℕ} {head : Node} :
    nodeAfter id l head = head ∨ ∃ n ∈ l, nodeAfter id l head = .source n := by
  unfold nodeAfter
  split
  case h_1 => exact .inl rfl
  case h_2 next rest hd =>
    refine .inr ⟨next, ?_, rfl⟩
    have : next ∈ (l.dropWhile (· ≠ id)).tail := by
      rw [hd]
      exact List.mem_cons_self
    exact (List.dropWhile_sublist _).subset (List.mem_of_mem_tail this)

theorem inv_recheckCall {needsRecheck : Bool} (h : s.Sound) (hp : s.pending = []) (hid : id ∈ s.checkList) :
    (s.call .recheck id (.recheckCall id (s.linkNext id) needsRecheck)).Inv := by
  have hl := h.check id hid
  refine ⟨h.call hl.2, hl.1, hp, ?_⟩
  rw [linkNext, if_pos hid]
  exact nodeAfter_mem

theorem Sound.setControl {control : Control} (h : s.Sound) : Sound { s with control } :=
  { h with }

theorem inv_startCheck (h : s.Sound) (hp : s.pending = []) : s.startCheck.Inv := by
  unfold startCheck
  split
  case h_1 => exact ⟨h.setControl, hp⟩
  case h_2 id _ hc => exact inv_recheckCall h hp (by rw [hc]; exact List.mem_cons_self)

theorem inv_dispatchIdle {after : AfterIdle} (h : s.Sound) (hp : s.pending = []) : (s.dispatchIdle after).Inv := by
  unfold dispatchIdle
  split
  case h_1 id _ hi =>
    have hl := h.idle id (by rw [hi]; exact List.mem_cons_self)
    exact ⟨h.call hl.2, ⟨hl.1, by simpa [Removed, EventLoop.call] using hl.2⟩, hp⟩
  case h_2 =>
    cases after
    case poll => exact ⟨h.setControl, hp⟩
    case recheck => exact inv_startCheck h hp
    case leave => exact ⟨h.setControl, hp⟩

theorem Sound.processDestroyList (h : s.Sound) (hp : s.pending = []) : s.processDestroyList.Sound := by
  have hlive {i} (hl : s.Live i) : s.processDestroyList.Live i := by
    have hn : i ∉ s.destroyList := fun hm => hl.2 (h.destroy i hm).2
    exact ⟨by simpa [EventLoop.processDestroyList, hn] using hl.1, hl.2⟩
  have hsome {i source} (hs : s.processDestroyList.sources i = some source) : s.sources i = some source := by
    simp only [EventLoop.processDestroyList] at hs
    split at hs
    case isTrue => cases hs
    case isFalse => exact hs
  exact {
    fresh := fun i hi => ⟨by simp [EventLoop.processDestroyList, (h.fresh i hi).1], (h.fresh i hi).2⟩
    isOpen := fun i source hs hn => h.isOpen i source (hsome hs) hn
    isClosed := fun i source hs hn => h.isClosed i source (hsome hs) hn
    check := fun i hi => hlive (h.check i hi)
    idle := fun i hi => hlive (h.idle i hi)
    timer := fun i hi => by
      have ⟨hl, hk⟩ := h.timer i hi
      have hn : i ∉ s.destroyList := fun hm => hl.2 (h.destroy i hm).2
      exact ⟨hlive hl, by simpa [HasKind, EventLoop.processDestroyList, hn] using hk⟩
    destroy := nofun
    checkNodup := h.checkNodup
    idleNodup := h.idleNodup
    consistent := h.consistent
    log := h.log
    pending := fun i hi => by
      rw [EventLoop.processDestroyList, hp] at hi
      cases hi
    servedNodup := h.servedNodup
    served := h.served
  }

theorem Sound.dropPending {rest : List ℕ} (h : Sound { s with pending := id :: rest }) (hr : s.Removed id) :
    Sound { s with pending := rest } :=
  { h with
    pending := fun i hi => h.pending i (List.mem_cons_of_mem id hi)
    servedNodup := (List.nodup_cons.mp h.servedNodup).2
    served := fun i hi => by
      rcases h.served i hi with hm | hm
      · cases List.mem_cons.mp hm with
        | inl heq => exact .inr (.inr (heq ▸ hr))
        | inr hm => exact .inl hm
      · exact .inr hm }

theorem Sound.serve {rest : List ℕ} (h : Sound { s with pending := id :: rest }) :
    Sound { s with pending := rest, served := id :: s.served } :=
  { h with
    pending := fun i hi => h.pending i (List.mem_cons_of_mem id hi)
    servedNodup := List.perm_middle.nodup_iff.mpr h.servedNodup
    served := fun i hi => by
      rcases h.served i hi with hm | hm | hm
      · cases List.mem_cons.mp hm with
        | inl heq => exact .inr (.inl (heq ▸ List.mem_cons_self))
        | inr hm => exact .inl hm
      · exact .inr (.inl (List.mem_cons_of_mem id hm))
      · exact .inr (.inr hm) }

theorem inv_runBatch {l : List ℕ} (h : Sound { s with pending := l }) : (s.runBatch l).Inv := by
  induction l with
  | nil =>
    rw [runBatch]
    exact inv_dispatchIdle (h.processDestroyList rfl) rfl
  | cons id rest ih =>
    have hk := h.pending id List.mem_cons_self
    have hne : s.sources id ≠ none := hk.elim HasKind.ne_none HasKind.ne_none
    rw [runBatch]
    split
    case h_1 hn => exact absurd hn hne
    case h_2 source hs =>
      have hclosed : closedFd source.kind = -1 := by
        rcases hk with hk | hk <;>
        · have ⟨source', hs', hk⟩ := hasKind_iff.mp hk
          cases hs.symm.trans hs'
          rw [hk]
          rfl
      split
      case isTrue hfd =>
        have hr : ¬s.Removed id := fun hr => hfd ((h.isClosed id source hs hr).trans hclosed)
        exact ⟨h.serve.call hr, hne⟩
      case isFalse hfd =>
        refine ih (h.dropPending ?_)
        refine Decidable.byContradiction fun hr => ?_
        have hopen := h.isOpen id source hs hr
        have hfd := Decidable.not_not.mp hfd
        rcases hk with hk | hk <;>
        · have ⟨source', hs', hk⟩ := hasKind_iff.mp hk
          cases hs.symm.trans hs'
          rw [hk, hfd] at hopen
          exact absurd hopen (by simp [OpenFd])

theorem inv_runTimers {due : List ℕ} (h : s.Sound) (hd : ∀ t ∈ due, s.HasKind .timer t) : (s.runTimers due).Inv := by
  induction due with
  | nil =>
    rw [runTimers]
    exact inv_runBatch h
  | cons id due ih =>
    have hk := hd id List.mem_cons_self
    have ⟨source', hs', hkind⟩ := hasKind_iff.mp hk
    rw [runTimers, hs']
    simp only
    split
    case isTrue hfd =>
      have hr : ¬s.Removed id := fun hr => hfd ((h.isClosed id source' hs' hr).trans (by rw [hkind]; rfl))
      exact ⟨h.call hr, hd⟩
    case isFalse => exact ih fun t ht => hd t (List.mem_cons_of_mem id ht)

theorem inv_checkAt {next : Node} {needsRecheck : Bool} (h : s.Sound) (hp : s.pending = [])
    (hn : next = .checkList ∨ ∃ n ∈ s.checkList, next = .source n) : (s.checkAt next needsRecheck).Inv := by
  rcases hn with rfl | ⟨n, hn, rfl⟩
  · rw [checkAt]
    split
    case isTrue => exact inv_startCheck h hp
    case isFalse => exact ⟨h.setControl, hp⟩
  · rw [checkAt, if_neg (h.check n hn).1]
    exact inv_recheckCall h hp hn

end Loop

section Actions

theorem removeSource_eq (h : s.Sound) (hs : s.sources id = some source) (hr : ¬s.Removed id) :
    s.removeSource id = { s with
      sources := Function.update s.sources id (some { source with fd := closedFd source.kind })
      timers := if source.kind = .timer then s.timers.update id 0 0 else s.timers
      checkList := s.checkList.erase id
      idleList := s.idleList.erase id
      destroyList := id :: s.destroyList
      log := .removed id :: s.log } := by
  have ho := h.isOpen id source hs hr
  rw [removeSource, hs]
  cases source with
  | mk kind fd =>
    cases kind
    case fd => simp [show fd ≥ 0 from ho, closedFd]
    case signal => simp [show fd ≥ 0 from ho, closedFd]
    case timer => simp [show fd = -1 from ho, timerRemoved, closedFd]
    case idle => simp [show fd = -1 from ho, closedFd]

theorem removed_removeSource (h : s.Sound) (hl : s.Live id) {i : ℕ} :
    (s.removeSource id).Removed i ↔ i = id ∨ s.Removed i := by
  have ⟨source, hs⟩ := Option.ne_none_iff_exists'.mp hl.1
  rw [removeSource_eq h hs hl.2]
  simp [Removed, eq_comm]

theorem hasKind_removeSource (h : s.Sound) (hl : s.Live id) {i : ℕ} :
    (s.removeSource id).HasKind kind i ↔ s.HasKind kind i := by
  have ⟨source, hs⟩ := Option.ne_none_iff_exists'.mp hl.1
  rw [removeSource_eq h hs hl.2, HasKind, HasKind]
  simp only [Function.update_apply]
  split
  case isTrue heq => simp [heq, hs]
  case isFalse => exact Iff.rfl

theorem live_removeSource (h : s.Sound) (hl : s.Live id) {i : ℕ} :
    (s.removeSource id).Live i ↔ s.Live i ∧ i ≠ id := by
  have ⟨source, hs⟩ := Option.ne_none_iff_exists'.mp hl.1
  rw [Live, removed_removeSource h hl, Live, removeSource_eq h hs hl.2]
  simp only [Function.update_apply]
  by_cases heq : i = id
  case pos => simp [heq]
  case neg => simp [heq]

theorem mem_timers_removeSource (h : s.Sound) (hl : s.Live id) {i : ℕ} :
    i ∈ (s.removeSource id).timers.data ↔ i ∈ s.timers.data ∧ i ≠ id := by
  have ⟨source, hs⟩ := Option.ne_none_iff_exists'.mp hl.1
  rw [removeSource_eq h hs hl.2]
  simp only
  split
  case isTrue => exact (TimerHeap.update_zero_spec h.consistent).2 i
  case isFalse hk =>
    refine (and_iff_left_of_imp fun hi heq => ?_).symm
    have ⟨source', hs', hk'⟩ := hasKind_iff.mp (h.timer i hi).2
    rw [heq, hs] at hs'
    cases hs'
    exact hk hk'

theorem Sound.removeSource (h : s.Sound) (hl : s.Live id) : (s.removeSource id).Sound := by
  have ⟨source, hs⟩ := Option.ne_none_iff_exists'.mp hl.1
  have heq := removeSource_eq h hs hl.2
  have hrem {i} := removed_removeSource h hl (i := i)
  have hlive {i} := live_removeSource h hl (i := i)
  have hkind {k i} : (s.removeSource id).HasKind k i ↔ s.HasKind k i := hasKind_removeSource h hl
  have hsources {i} (hne : i ≠ id) : (s.removeSource id).sources i = s.sources i := by
    rw [heq]
    exact Function.update_of_ne hne _ _
  exact {
    fresh := fun i hi => by
      have hi : s.nextSource ≤ i := by rwa [heq] at hi
      have ⟨hn, hr⟩ := h.fresh i hi
      have hne : i ≠ id := fun he => hl.1 (he ▸ hn)
      rw [hsources hne, hrem]
      exact ⟨hn, not_or.mpr ⟨hne, hr⟩⟩
    isOpen := fun i source' hs' hr => by
      have ⟨hne, hr⟩ := not_or.mp (hrem.not.mp hr)
      exact h.isOpen i source' (by rwa [hsources hne] at hs') hr
    isClosed := fun i source' hs' hr => by
      by_cases hne : i = id
      case pos =>
        rw [heq, hne] at hs'
        simp only [Function.update_self, Option.some.injEq] at hs'
        rw [← hs']
      case neg => exact h.isClosed i source' (by rwa [hsources hne] at hs') ((hrem.mp hr).resolve_left hne)
    check := fun i hi => by
      have hi : i ∈ s.checkList.erase id := by rwa [heq] at hi
      have ⟨hne, hi⟩ := h.checkNodup.mem_erase_iff.mp hi
      exact hlive.mpr ⟨h.check i hi, hne⟩
    idle := fun i hi => by
      have hi : i ∈ s.idleList.erase id := by rwa [heq] at hi
      have ⟨hne, hi⟩ := h.idleNodup.mem_erase_iff.mp hi
      exact hlive.mpr ⟨h.idle i hi, hne⟩
    timer := fun i hi => by
      have ⟨hi, hne⟩ := (mem_timers_removeSource h hl).mp hi
      exact ⟨hlive.mpr ⟨(h.timer i hi).1, hne⟩, hkind.mpr (h.timer i hi).2⟩
    destroy := fun i hi => by
      have hi : i ∈ id :: s.destroyList := by rwa [heq] at hi
      rw [hrem]
      by_cases hne : i = id
      case pos => exact ⟨(hkind.mpr (hasKind_iff.mpr ⟨source, hne ▸ hs, rfl⟩)).ne_none, .inl hne⟩
      case neg =>
        have ⟨hs, hr⟩ := h.destroy i ((List.mem_cons.mp hi).resolve_left hne)
        exact ⟨by rwa [hsources hne], .inr hr⟩
    checkNodup := by
      rw [heq]
      exact h.checkNodup.erase id
    idleNodup := by
      rw [heq]
      exact h.idleNodup.erase id
    consistent := by
      rw [heq]
      simp only
      split
      case isTrue => exact (TimerHeap.update_zero_spec h.consistent).1
      case isFalse => exact h.consistent
    log := by
      rw [heq]
      exact List.pairwise_cons.mpr ⟨fun _ _ _ _ _ => nofun, h.log⟩
    pending := fun i hi => by
      have hi : i ∈ s.pending := by rwa [heq] at hi
      exact (h.pending i hi).imp hkind.mpr hkind.mpr
    servedNodup := by
      rw [heq]
      exact h.servedNodup
    served := fun i hi => by
      have := h.served i (by rwa [heq] at hi)
      rw [hrem]
      rw [heq]
      exact this.imp_right (Or.imp_right .inr)
  }

theorem sources_addSource {i : ℕ} :
    (s.addSource source).sources i = if i = s.nextSource then some source else s.sources i :=
  Function.update_apply _ _ _ _

theorem Sound.ne_nextSource (h : s.Sound) {i : ℕ} (hi : s.sources i ≠ none) : i ≠ s.nextSource := by
  intro he
  rw [he] at hi
  exact hi (h.fresh _ (Nat.le_refl _)).1

theorem Sound.hasKind_addSource (h : s.Sound) {i : ℕ} (hk : s.HasKind kind i) :
    (s.addSource source).HasKind kind i := by
  rw [HasKind, sources_addSource, if_neg (h.ne_nextSource hk.ne_none)]
  exact hk

theorem Sound.live_addSource (h : s.Sound) {i : ℕ} (hl : s.Live i) : (s.addSource source).Live i := by
  refine ⟨?_, hl.2⟩
  rw [sources_addSource, if_neg (h.ne_nextSource hl.1)]
  exact hl.1

theorem Sound.addSource (h : s.Sound) (ho : OpenFd source.kind source.fd) : (s.addSource source).Sound :=
  {
    fresh := fun i hi => by
      have hi : s.nextSource + 1 ≤ i := hi
      have ⟨hn, hr⟩ := h.fresh i (by omega)
      rw [sources_addSource, if_neg (by omega)]
      exact ⟨hn, hr⟩
    isOpen := fun i source' hs hr => by
      rw [sources_addSource] at hs
      split at hs
      case isTrue => exact Option.some.inj hs ▸ ho
      case isFalse => exact h.isOpen i source' hs hr
    isClosed := fun i source' hs hr => by
      rw [sources_addSource] at hs
      split at hs
      case isTrue he => exact absurd hr (h.fresh i (Nat.le_of_eq he.symm)).2
      case isFalse => exact h.isClosed i source' hs hr
    check := fun i hi => h.live_addSource (h.check i hi)
    idle := fun i hi => h.live_addSource (h.idle i hi)
    timer := fun i hi => ⟨h.live_addSource (h.timer i hi).1, h.hasKind_addSource (h.timer i hi).2⟩
    destroy := fun i hi => by
      have ⟨hs, hr⟩ := h.destroy i hi
      rw [sources_addSource, if_neg (h.ne_nextSource hs)]
      exact ⟨hs, hr⟩
    checkNodup := h.checkNodup
    idleNodup := h.idleNodup
    consistent := h.consistent
    log := h.log
    pending := fun i hi => (h.pending i hi).imp h.hasKind_addSource h.hasKind_addSource
    servedNodup := h.servedNodup
    served := h.served
  }

-- What the functions of sources can do to the loop.
structure Acted (s s' : EventLoop) (actions : List Action) : Prop where
  sound   : s'.Sound
  control : s'.control = s.control
  pending : s'.pending = s.pending
  kind    : ∀ {k i}, s.HasKind k i → s'.HasKind k i
  removed : ∀ i, s'.Removed i ↔ s.Removed i ∨ .remove i ∈ actions
  check   : ∀ i ∈ s.checkList, ¬s'.Removed i → i ∈ s'.checkList
  idle    : ∀ i, isIdleCall i s.control → .remove i ∉ actions

theorem act_spec {action : Action} (h : s.Sound) (ha : s.act action = some s') : s.Acted s' [action] := by
  cases action with
  | addFd fd =>
    cases ha
    exact ⟨h.addSource (Int.natCast_nonneg fd), rfl, rfl, h.hasKind_addSource, by simp [Removed, addSource],
      fun _ hi _ => hi, by simp⟩
  | addSignal fd =>
    cases ha
    exact ⟨h.addSource (Int.natCast_nonneg fd), rfl, rfl, h.hasKind_addSource, by simp [Removed, addSource],
      fun _ hi _ => hi, by simp⟩
  | addTimer =>
    cases ha
    exact ⟨h.addSource rfl, rfl, rfl, h.hasKind_addSource, by simp [Removed, addSource], fun _ hi _ => hi, by simp⟩
  | addIdle =>
    cases ha
    have hs : (s.addSource ⟨.idle, -1⟩).Sound := h.addSource rfl
    have hf := h.fresh _ (Nat.le_refl s.nextSource)
    have hnew : (s.addSource ⟨.idle, -1⟩).Live s.nextSource := ⟨by simp [sources_addSource], hf.2⟩
    have hn : s.nextSource ∉ s.idleList := fun hi => (h.idle _ hi).1 hf.1
    exact ⟨{ hs with
      idle := fun i hi => (List.mem_append.mp hi).elim (hs.idle i) fun he => List.mem_singleton.mp he ▸ hnew
      idleNodup := List.nodup_append.mpr ⟨h.idleNodup, List.nodup_singleton _, fun i hi j hj he => by
        rw [he, List.mem_singleton.mp hj] at hi
        exact hn hi⟩ }, rfl, rfl, h.hasKind_addSource, by simp [Removed, addSource], fun _ hi _ => hi, by simp⟩
  | update id now msDelay =>
    rw [act, Option.ite_none_right_eq_some] at ha
    have ⟨⟨hl, hk⟩, ha⟩ := ha
    cases ha
    have hu := TimerHeap.update_spec id now msDelay h.consistent
    exact ⟨{ h with
      consistent := hu.1
      timer := fun i hi => (hu.2 i hi).elim (h.timer i) fun he => by
        subst he
        exact ⟨hl, hk⟩ }, rfl, rfl, fun hk => hk, by simp [Removed], fun _ hi _ => hi, by simp⟩
  | check id =>
    rw [act, Option.ite_none_right_eq_some] at ha
    have ⟨⟨hl, _, hn⟩, ha⟩ := ha
    cases ha
    exact ⟨{ h with
      check := fun i hi => (List.mem_append.mp hi).elim (h.check i) fun he => List.mem_singleton.mp he ▸ hl
      checkNodup := List.nodup_append.mpr ⟨h.checkNodup, List.nodup_singleton _, fun i hi j hj he => by
        rw [he, List.mem_singleton.mp hj] at hi
        exact hn hi⟩ }, rfl, rfl, fun hk => hk, by simp [Removed], fun i hi _ => List.mem_append_left _ hi, by simp⟩
  | remove id =>
    rw [act, Option.ite_none_right_eq_some] at ha
    have ⟨⟨hl, hc⟩, ha⟩ := ha
    cases ha
    have ⟨source, hs⟩ := Option.ne_none_iff_exists'.mp hl.1
    have heq := removeSource_eq h hs hl.2
    have hrem {i} := removed_removeSource h hl (i := i)
    refine ⟨h.removeSource hl, by rw [heq], by rw [heq], (hasKind_removeSource h hl).mpr, fun i => ?_,
      fun i hi hr => ?_, fun i hi hm => ?_⟩
    · rw [hrem, or_comm, List.mem_singleton, Action.remove.injEq]
    · have hne : i ≠ id := fun he => hr (hrem.mpr (.inl he))
      rw [heq]
      exact (List.mem_erase_of_ne hne).mpr hi
    · rw [List.mem_singleton, Action.remove.injEq] at hm
      rw [hm, hc] at hi
      cases hi

theorem acts_spec {actions : List Action} (h : s.Sound) (ha : s.acts actions = some s') : s.Acted s' actions := by
  induction actions generalizing s
  case nil =>
    cases ha
    exact ⟨h, rfl, rfl, fun hk => hk, by simp, fun _ hi _ => hi, by simp⟩
  case cons action actions ih =>
    have ⟨s₁, ha, hs⟩ := Option.bind_eq_some_iff.mp ha
    have h₁ := act_spec h ha
    have h₂ := ih h₁.sound hs
    refine ⟨h₂.sound, h₂.control.trans h₁.control, h₂.pending.trans h₁.pending, fun hk => h₂.kind (h₁.kind hk),
      fun i => ?_, fun i hi hr => ?_, fun i hi hm => ?_⟩
    · rw [h₂.removed, h₁.removed, List.mem_singleton, List.mem_cons, or_assoc]
    · exact h₂.check i (h₁.check i hi fun hr₁ => hr ((h₂.removed i).mpr (.inl hr₁))) hr
    · cases List.mem_cons.mp hm with
      | inl he => exact h₁.idle i hi (List.mem_singleton.mpr he)
      | inr hm => exact h₂.idle i (h₁.control ▸ hi) hm

end Actions

-- A function that is called for a re-check does not remove the source after its own in the check list, and the timer of
-- the kernel can be set when there are events.
def Careful (s : EventLoop) : Event → Prop
  | .polled (some p) => p.hasTimers → p.timerSet = false → p.ready = []
  | .callback actions _ => ∀ id n needsRecheck, s.control = .recheckCall id (.source n) needsRecheck →
    .remove n ∉ actions
  | _ => True

theorem Sound.polled {p : Poll} (h : s.Sound) (hp : s.CanPoll p) :
    Sound { s with ready := p.ready, pending := p.ready, served := [] } :=
  { h with
    pending := fun i hi => (hp.2.2 i hi).2
    servedNodup := by
      rw [List.append_nil]
      exact hp.1
    served := fun _ hi => .inl hi }

theorem Sound.takeDue (h : s.Sound) (now : ℤ) : Sound { s with timers := (s.timers.takeDue now).2 } :=
  have hs := TimerHeap.takeDue_spec now h.consistent
  { h with
    consistent := hs.consistent
    timer := fun i hi => h.timer i ((hs.mem i).mp hi).1 }

theorem polled_spec {p : Poll} (h : s.Sound) (hp : s.CanPoll p) :
    ((s.polled p).Correct ↔ s.Careful (.polled (some p))) ∧ (s.Careful (.polled (some p)) → (s.polled p).Inv) := by
  have h := h.polled hp
  have hkeep (hc : s.Careful (.polled (some p))) (hi : (s.polled p).Inv) :
      ((s.polled p).Correct ↔ s.Careful (.polled (some p))) ∧ (s.Careful (.polled (some p)) → (s.polled p).Inv) :=
    ⟨iff_of_true hi.correct hc, fun _ => hi⟩
  cases ht : p.hasTimers
  case false =>
    refine hkeep (fun hcontra => by rw [ht] at hcontra; cases hcontra) ?_
    simp only [EventLoop.polled, ht]
    exact inv_runBatch h
  case true =>
    have hd := h.takeDue p.now
    cases hset : p.timerSet
    case true =>
      refine hkeep (fun _ hcontra => by rw [hset] at hcontra; cases hcontra) ?_
      simp only [EventLoop.polled, ht, hset, if_true]
      have hs := TimerHeap.takeDue_spec p.now h.consistent
      exact inv_runTimers hd fun t hm => (h.timer t (hs.subset t hm)).2
    case false =>
      have hpoll : s.polled p = { s with
          ready := p.ready
          pending := p.ready
          served := []
          timers := (s.timers.takeDue p.now).2
          control := .outside } := by
        simp [EventLoop.polled, ht, hset]
      have hcare : s.Careful (.polled (some p)) ↔ p.ready = [] := ⟨fun hc => hc ht hset, fun hr _ _ => hr⟩
      rw [hcare]
      have hi : p.ready = [] → (s.polled p).Inv := by
        rw [hpoll]
        exact fun hr => ⟨hd.setControl, hr⟩
      refine ⟨⟨fun hc => ?_, fun hr => (hi hr).correct⟩, hi⟩
      have := hc.served.done
      rw [hpoll] at this
      exact this rfl

theorem resume_spec {s₁ : EventLoop} {actions : List Action} {result : ℤ} (h : s.Inv) (ha : s.Acted s₁ actions)
    (hs : s₁.resume result s.control = some s') :
    (s'.Correct ↔ s.Careful (.callback actions result)) ∧ (s.Careful (.callback actions result) → s'.Inv) := by
  have hw := h.waits
  have hkeep (hc : ∀ id n needsRecheck, s.control ≠ .recheckCall id (.source n) needsRecheck) (hi : s'.Inv) :
      (s'.Correct ↔ s.Careful (.callback actions result)) ∧ (s.Careful (.callback actions result) → s'.Inv) :=
    ⟨iff_of_true hi.correct fun id n needs he => absurd he (hc id n needs), fun _ => hi⟩
  cases hc : s.control <;> rw [hc] at hs hw
  case outside => cases hs
  case polling => cases hs
  case crashed => cases hs
  case idleCall after id =>
    cases hs
    refine hkeep (by simp [hc]) ?_
    have hl : s₁.Live id := by
      have ⟨source, hsource⟩ := Option.ne_none_iff_exists'.mp hw.1.1
      refine ⟨(ha.kind (hasKind_iff.mpr ⟨source, hsource, rfl⟩)).ne_none, (ha.removed id).not.mpr ?_⟩
      exact not_or.mpr ⟨hw.1.2, ha.idle id (by simp [hc, isIdleCall])⟩
    have ⟨source, hsource⟩ := Option.ne_none_iff_exists'.mp hl.1
    refine inv_dispatchIdle (ha.sound.removeSource hl) ?_
    rw [removeSource_eq ha.sound hsource hl.2]
    exact ha.pending.trans hw.2
  case timerCall id due =>
    cases hs
    exact hkeep (by simp [hc]) (inv_runTimers ha.sound fun t ht => ha.kind (hw t (List.mem_cons_of_mem id ht)))
  case batchCall id =>
    cases hs
    exact hkeep (by simp [hc]) (inv_runBatch ha.sound)
  case recheckCall id next needsRecheck =>
    cases hs
    have hp := ha.pending.trans hw.2.1
    rcases hw.2.2 with rfl | ⟨n, hn, rfl⟩
    · exact hkeep (by simp [hc]) (inv_checkAt ha.sound hp (.inl rfl))
    · have hl := h.sound.check n hn
      by_cases hm : .remove n ∈ actions
      case neg =>
        have hr : ¬s₁.Removed n := (ha.removed n).not.mpr (not_or.mpr ⟨hl.2, hm⟩)
        have hi : (s₁.checkAt (.source n) (needsRecheck || result ≠ 0)).Inv :=
          inv_checkAt ha.sound hp (.inr ⟨n, ha.check n hn hr, rfl⟩)
        refine ⟨iff_of_true hi.correct fun id' n' needs he => ?_, fun _ => hi⟩
        rw [hc] at he
        cases he
        exact hm
      case pos =>
        have hno : ¬s.Careful (.callback actions result) := fun hcare => hcare id n needsRecheck hc hm
        refine ⟨iff_of_false (fun hcorrect => ?_) hno, fun hcare => absurd hcare hno⟩
        have ⟨source, hsource⟩ := Option.ne_none_iff_exists'.mp hl.1
        have hne := (ha.kind (hasKind_iff.mpr ⟨source, hsource, rfl⟩)).ne_none
        have hlog := hcorrect.neverCalledAgain
        rw [checkAt, if_neg hne] at hlog
        have hr : s₁.Removed n := (ha.removed n).mpr (.inr hm)
        exact (List.pairwise_cons.mp hlog).1 _ hr n .recheck rfl rfl

theorem step_spec {event : Event} (h : s.Inv) (hs : s.step event = some s') :
    (s'.Correct ↔ s.Careful event) ∧ (s.Careful event → s'.Inv) := by
  have hkeep {event : Event} (hc : s.Careful event) (hi : s'.Inv) :
      (s'.Correct ↔ s.Careful event) ∧ (s.Careful event → s'.Inv) := ⟨iff_of_true hi.correct hc, fun _ => hi⟩
  have hw := h.waits
  cases event with
  | program action =>
    rw [step, Option.ite_none_right_eq_some] at hs
    have ha := act_spec h.sound hs.2
    refine hkeep trivial ⟨ha.sound, ?_⟩
    rw [hs.1] at hw
    rw [ha.control, hs.1]
    exact ha.pending.trans hw
  | dispatch =>
    rw [step, Option.ite_none_right_eq_some] at hs
    have ⟨hc, hs⟩ := hs
    rw [hc] at hw
    cases hs
    exact hkeep trivial (inv_dispatchIdle h.sound hw)
  | dispatchIdle =>
    rw [step, Option.ite_none_right_eq_some] at hs
    have ⟨hc, hs⟩ := hs
    rw [hc] at hw
    cases hs
    exact hkeep trivial (inv_dispatchIdle h.sound hw)
  | polled answer =>
    cases answer with
    | none =>
      rw [step, Option.ite_none_right_eq_some] at hs
      have ⟨hc, hs⟩ := hs
      rw [hc] at hw
      cases hs
      exact hkeep trivial ⟨h.sound.setControl, hw⟩
    | some p =>
      rw [step, Option.ite_none_right_eq_some] at hs
      have ⟨⟨_, hp⟩, hs⟩ := hs
      cases hs
      exact polled_spec h.sound hp
  | callback actions result =>
    have ⟨s₁, ha, hs⟩ := Option.bind_eq_some_iff.mp hs
    exact resume_spec h (acts_spec h.sound ha) hs

theorem inv_empty : Inv {} where
  sound := {
    fresh := fun _ _ => ⟨rfl, List.not_mem_nil⟩
    isOpen := nofun
    isClosed := nofun
    check := nofun
    idle := nofun
    timer := nofun
    destroy := nofun
    checkNodup := .nil
    idleNodup := .nil
    consistent := ⟨nofun, fun _ => .inl rfl⟩
    log := .nil
    pending := nofun
    servedNodup := .nil
    served := nofun
  }
  waits := rfl

theorem always_correct_iff (events : List Event) :
    Machine.Always step Correct {} events ↔ Machine.EachStep step Careful {} events :=
  Machine.Always.iff_eachStep inv_empty Inv.correct step_spec

-- Two sources are marked for a re-check, and the first one removes the second one there, when it is called the second
-- time. The second one is called nevertheless.
theorem not_always_correct : ¬Machine.Always step Correct {}
    [.program (.addFd 3), .program (.addFd 4), .program (.check 0), .program (.check 1), .dispatch,
      .polled (some ⟨false, [0], 0, true⟩), .callback [] 0, .callback [.remove 1] 0] := by
  intro h
  have h := ((((((((h.2 _ rfl).2 _ rfl).2 _ rfl).2 _ rfl).2 _ rfl).2 _ rfl).2 _ rfl).2 _ rfl).start
  have hlog : List.Pairwise _ (Record.called .recheck 1 :: Record.removed 1 :: _) := h.neverCalledAgain
  exact (List.pairwise_cons.mp hlog).1 _ List.mem_cons_self 1 .recheck rfl rfl

end Libwayland.EventLoop
