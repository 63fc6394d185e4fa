import PlasmaModel.Wayland.Theorems.Commit

namespace KWin

open Fallible State Fifo

variable {s s' : State} {queue : SurfaceId → List TransactionId} {t a : TransactionId} {x y : SurfaceId}
variable {mutator : SurfaceState → SurfaceState} {entry : TransactionEntry} {surface : Surface}
variable {transaction : Transaction} {l rest : List TransactionId} {n : Nat}

namespace TransactionEntry

@[simp]
theorem amend_link (entry : TransactionEntry) : (entry.amend x mutator).link = entry.link := by
  unfold amend
  split <;> rfl

@[simp]
theorem amend_surface : (entry.amend x mutator).surface = entry.surface := by
  unfold amend
  split <;> rfl

theorem amend_of_ne (h : entry.surface ≠ x) : entry.amend x mutator = entry :=
  if_neg h

end TransactionEntry

def Transaction.amend (x : SurfaceId) (mutator : SurfaceState → SurfaceState) (transaction : Transaction) :
    Transaction :=
  ⟨transaction.entries.map (·.amend x mutator)⟩

@[simp]
theorem Transaction.amend_next : (transaction.amend x mutator).next y = transaction.next y := by
  unfold Transaction.next Transaction.amend
  induction transaction.entries
  case nil => rfl
  case cons e entries ih =>
    simp only [List.map_cons, List.find?_cons, TransactionEntry.amend_surface]
    split
    case h_1 => exact congrArg Link.next (e.amend_link)
    case h_2 => exact ih

-- What the walk along the rest of a queue amends.
def State.amendTransactions (s : State) (x : SurfaceId) (mutator : SurfaceState → SurfaceState)
    (l : List TransactionId) : State :=
  { s with transactions := fun t =>
      if t ∈ l then (s.transactions t).map (·.amend x mutator) else s.transactions t }

theorem queueView_of_links (h : ∀ t, (s'.transactions t).map (·.entries.map (·.link)) =
    (s.transactions t).map (·.entries.map (·.link))) (hs : ∀ x, (s'.surfaces x).map (·.ends) = (s.surfaces x).map (·.ends))
    (happ : s'.applying = s.applying) (hn : s'.nextTransaction = s.nextTransaction)
    (hns : s'.nextSurface = s.nextSurface) : s'.queueView = s.queueView := by
  have hl : ∀ t, (s'.transactions t).map (fun transaction => (↑(transaction.entries.map (·.link)) : Multiset Link)) =
      (s.transactions t).map fun transaction => ↑(transaction.entries.map (·.link)) := fun t => by
    have := congrArg (Option.map fun l : List Link => (↑l : Multiset Link)) (h t)
    simpa [Option.map_map, Function.comp_def] using this
  simp only [State.queueView, hl, hs, happ, hn, hns]

theorem amendTransactions_queueView (s : State) (x : SurfaceId) (mutator : SurfaceState → SurfaceState)
    (l : List TransactionId) : (s.amendTransactions x mutator l).queueView = s.queueView := by
  refine queueView_of_links (fun t => ?_) (fun _ => rfl) rfl rfl rfl
  simp only [State.amendTransactions]
  split
  case isTrue => cases s.transactions t <;> simp [Transaction.amend]
  case isFalse => rfl

theorem Consistent.of_queueView (h : Consistent s queue) (hv : s'.queueView = s.queueView) : Consistent s' queue :=
  ⟨hv ▸ h.queues, hv ▸ h.linked⟩

-- The entry of a queued transaction that a walk along the queue looks at.
theorem Consistent.next_eq (hc : Consistent s queue) (htr : s.transactions t = some transaction)
    (hm : t ∈ queue x) : transaction.next x = after (queue x) t ∨ transaction.next x = some t := by
  have ⟨links, hl, l, hlm, hx⟩ := hc.queues.queued x t hm
  obtain rfl := Option.some.inj (hl.symm.trans (queueView_links htr))
  obtain ⟨e, he, rfl⟩ := List.mem_map.mp (Multiset.mem_coe.mp hlm)
  obtain ⟨e', hfind⟩ : ∃ e', transaction.entries.find? (·.surface = x) = some e' :=
    Option.isSome_iff_exists.mp (List.find?_isSome.mpr ⟨e, he, decide_eq_true hx⟩)
  have hx' : e'.surface = x := by simpa using List.find?_some hfind
  have hlink : e'.link ∈ (↑(transaction.entries.map (·.link)) : Multiset Link) :=
    Multiset.mem_coe.mpr (List.mem_map_of_mem (List.mem_of_find?_eq_some hfind))
  have := hc.queues.next t _ (queueView_links htr) e'.link hlink (by simpa [TransactionEntry.link, hx'] using hm)
  simp only [Transaction.next, hfind, Option.bind_some]
  simp only [TransactionEntry.link, hx'] at this
  exact this.imp id fun h => h.1

-- A walk that comes to a transaction which is its own next one does not end.
theorem amendQueueFrom_self (transaction : Transaction) (htr : s.transactions t = some transaction) (hn : transaction.next x = some t) :
    amendQueueFrom x mutator n s (some t) ≠ .ok s' := by
  induction n generalizing s transaction
  case zero => simp [amendQueueFrom]
  case succ n ih =>
    simp only [amendQueueFrom, State.transaction, htr, Option.elim_some, bind, Except.bind, hn]
    exact ih (transaction.amend x mutator) (by simp [setEntries, Transaction.amend])
      (by rw [Transaction.amend_next, hn])

theorem amendQueueFrom_eq (hc : Consistent s queue) (hl : l <:+ queue x)
    (h : amendQueueFrom x mutator n s l.head? = .ok s') : s' = s.amendTransactions x mutator l := by
  induction n generalizing s l
  case zero =>
    cases l
    case nil => obtain rfl := pure_eq_ok.mp h; simp [State.amendTransactions]
    case cons => simp [amendQueueFrom] at h
  case succ n ih =>
    cases l
    case nil => obtain rfl := pure_eq_ok.mp h; simp [State.amendTransactions]
    case cons t l =>
      simp only [List.head?_cons, amendQueueFrom, bind_eq_ok, transaction_eq_ok] at h
      obtain ⟨transaction, htr, h⟩ := h
      have hm : t ∈ queue x := hl.subset List.mem_cons_self
      have hnd := hc.queues.nodup (x := x)
      have hafter : after (queue x) t = l.head? := by
        obtain ⟨pre, hpre⟩ := hl
        rw [← hpre] at hnd ⊢
        have hnp : t ∉ pre := fun hp => (List.nodup_append.mp hnd).2.2 t hp t List.mem_cons_self rfl
        clear hpre hnd
        induction pre
        case nil => simp
        case cons b pre ih => rw [List.cons_append, after_cons_of_ne (by simp_all), ih (by simp_all)]
      have hset : s.setEntries t (transaction.entries.map (·.amend x mutator)) =
          s.amendTransactions x mutator [t] := by
        simp only [setEntries, State.amendTransactions, State.mk.injEq, true_and, and_true]
        funext b
        by_cases hb : b = t
        case pos => subst hb; simp [htr, Transaction.amend]
        case neg => simp [hb]
      rw [hset] at h
      have hc' := hc.of_queueView (amendTransactions_queueView s x mutator [t])
      rcases hc.next_eq htr hm with hn | hn
      case inl =>
        rw [hn, hafter] at h
        rw [ih hc' ((List.suffix_cons t l).trans hl) h]
        simp only [State.amendTransactions, State.mk.injEq, true_and, and_true]
        funext b
        have hnl : t ∉ l := (List.nodup_cons.mp (hl.sublist.nodup hnd)).1
        by_cases hb : b = t
        case pos => subst hb; simp [hnl]
        case neg => simp [hb]
      case inr =>
        refine absurd h (hn ▸ amendQueueFrom_self (transaction.amend x mutator) ?_ ?_)
        · simp [State.amendTransactions, htr]
        · rw [Transaction.amend_next, hn]

-- What `amend` does: every state that the surface has cached or queued is amended.
def State.amendAll (s : State) (x : SurfaceId) (mutator : SurfaceState → SurfaceState) : State :=
  { s.modifySurface x (fun surface => { surface with cached := surface.cached.map (·.map (·.amend x mutator)) }) with
    transactions := fun t => (s.transactions t).map (·.amend x mutator) }

theorem amendAll_queueView : (s.amendAll x mutator).queueView = s.queueView := by
  refine queueView_of_links (fun t => ?_) (fun y => ?_) rfl rfl rfl
  · simp only [State.amendAll]
    cases s.transactions t <;> simp [Transaction.amend]
  · simp only [State.amendAll, modifySurface_surfaces]
    split
    case isTrue h => subst h; cases s.surfaces y <;> rfl
    case isFalse => rfl

theorem amend_eq (hc : Consistent s queue) (ha : s.applying = []) (h : s.amend x mutator = .ok s') :
    (s.surfaces x).isSome ∧ s' = s.amendAll x mutator := by
  simp only [State.amend, bind_eq_ok, surface_eq_ok] at h
  obtain ⟨surface, hs, h⟩ := h
  rw [setSurface_eq_modifySurface
    (f := fun surface => { surface with cached := surface.cached.map (·.map (·.amend x mutator)) }) hs rfl] at h
  have hv : (s.modifySurface x fun surface =>
      { surface with cached := surface.cached.map (·.map (·.amend x mutator)) }).queueView = s.queueView := by
    refine queueView_of_links (fun _ => rfl) (fun y => ?_) rfl rfl rfl
    rw [modifySurface_surfaces]
    split
    case isTrue h => subst h; cases s.surfaces y <;> rfl
    case isFalse => rfl
  have hends := hc.queues.ends x surface.ends (by simp [State.queueView, hs])
  have hfirst : surface.firstTransaction = (queue x).head? := congrArg Ends.first hends
  rw [hfirst] at h
  refine ⟨by simp [hs], (amendQueueFrom_eq (hc.of_queueView hv) (List.suffix_refl _) h).trans ?_⟩
  simp only [State.amendTransactions, State.amendAll, State.mk.injEq, true_and, and_true]
  funext t
  split
  case isTrue => rfl
  case isFalse hm =>
    show s.transactions t = _
    cases htr : s.transactions t
    case none => rfl
    case some transaction =>
      refine congrArg some ?_
      have : transaction.entries.map (·.amend x mutator) = transaction.entries := by
        refine (List.map_congr_left fun e he => ?_).trans (List.map_id _)
        refine TransactionEntry.amend_of_ne fun hx => ?_
        obtain ⟨hd, _⟩ := (hc.linked t _ (queueView_links htr)).unqueued (by simp [State.queueView, ha]) e.link
          (Multiset.mem_coe.mpr (List.mem_map_of_mem he)) (by simpa [TransactionEntry.link, hx] using hm)
        simp [State.queueView, TransactionEntry.link, hx, hs] at hd
      show transaction = transaction.amend x mutator
      unfold Transaction.amend
      rw [this]

end KWin

namespace KWin

open Fallible State

def State.cachedAt (s : State) (x : SurfaceId) : Option (List TransactionEntry) :=
  (s.surfaces x).bind (·.cached)

-- The entry of a transaction that has not been committed yet.
structure TransactionEntry.Unlinked (entry : TransactionEntry) : Prop where
  previous : entry.previousTransaction = none
  next     : entry.nextTransaction = none
  fences   : entry.fences = []

-- What holds between two events.
structure Valid (s : State) (queue : SurfaceId → List TransactionId) : Prop where
  consistent : Consistent s queue
  idle       : s.applying = []
  cached     : ∀ x entries, s.cachedAt x = some entries → ∀ entry ∈ entries,
                 entry.Unlinked ∧ entry.surface < s.nextSurface

variable {env : Environment} {s s' s'' : State} {queue : SurfaceId → List TransactionId} {t : TransactionId}
variable {x y : SurfaceId} {e : SubSurfaceId} {f : Surface → Surface} {mutator : SurfaceState → SurfaceState}
variable {entry : TransactionEntry} {entries : List TransactionEntry} {surface : Surface}

theorem Consistent.createSurface (hc : Consistent s queue) : Consistent s.createSurface queue := by
  have q := hc.queues
  have hnil : queue s.nextSurface = [] := by
    refine List.eq_nil_iff_forall_not_mem.mpr fun t ht => ?_
    obtain ⟨links, hl, l, hm, hx⟩ := q.queued _ t ht
    exact (hx ▸ q.known t links hl l hm : s.nextSurface < s.queueView.nextSurface).false
  have hends : ∀ y, s.createSurface.queueView.ends y =
      if y = s.nextSurface then some ⟨none, none⟩ else s.queueView.ends y := fun y => by
    by_cases hy : y = s.nextSurface <;> simp [State.queueView, State.createSurface, hy, Surface.ends]
  constructor
  case queues =>
    refine ⟨q.sorted, q.fresh, fun t links h l hl => (q.known t links h l hl).trans (Nat.lt_succ_self _),
      fun y ends hy => ?_, q.queued, fun y ends hy => ?_, q.next, q.previous, q.exact, q.ready, q.once⟩
    · rw [hends] at hy
      split at hy
      case isTrue h => exact h ▸ Nat.lt_succ_self _
      case isFalse => exact (q.alive y ends hy).trans (Nat.lt_succ_self _)
    · rw [hends] at hy
      split at hy
      case isTrue h => rw [h, hnil, ← Option.some.inj hy]; rfl
      case isFalse => exact q.ends y ends hy
  case linked =>
    intro t links ht
    have h := hc.linked t links ht
    refine ⟨h.nodup, fun ha l hl hn => ?_⟩
    obtain ⟨h₁, h₂⟩ := h.unqueued ha l hl hn
    have hne : l.surface ≠ s.nextSurface := (q.known t links ht l hl).ne
    exact ⟨by rw [hends, if_neg hne]; exact h₁, h₂⟩

def State.removeSurface (s : State) (x : SurfaceId) : State :=
  { s with surfaces := Function.update s.surfaces x none }

theorem Consistent.removeSurface (hc : Consistent s queue) : Consistent (s.removeSurface x) queue := by
  have q := hc.queues
  have hends : ∀ y, (s.removeSurface x).queueView.ends y = if y = x then none else s.queueView.ends y := fun y => by
    by_cases hy : y = x <;> simp [State.queueView, State.removeSurface, hy]
  have hsome : ∀ y ends, (s.removeSurface x).queueView.ends y = some ends → s.queueView.ends y = some ends := by
    intro y ends hy
    rw [hends] at hy
    split at hy
    case isTrue => contradiction
    case isFalse => exact hy
  constructor
  case queues =>
    exact ⟨q.sorted, q.fresh, q.known, fun y ends hy => q.alive y ends (hsome y ends hy), q.queued,
      fun y ends hy => q.ends y ends (hsome y ends hy), q.next, q.previous, q.exact, q.ready, q.once⟩
  case linked =>
    intro t links ht
    have h := hc.linked t links ht
    refine ⟨h.nodup, fun ha l hl hn => ?_⟩
    obtain ⟨h₁, h₂⟩ := h.unqueued ha l hl hn
    exact ⟨by rw [hends, h₁, ite_self], h₂⟩

theorem cachedAt_modifySurface : (s.modifySurface x f).cachedAt y =
    if y = x then (s.surfaces x).bind fun surface => (f surface).cached else s.cachedAt y := by
  rw [State.cachedAt, modifySurface_surfaces]
  split
  case isTrue => cases s.surfaces x <;> rfl
  case isFalse => rfl

theorem cachedAt_amendAll : (s.amendAll x mutator).cachedAt y =
    if y = x then (s.cachedAt x).map (·.map (·.amend x mutator)) else s.cachedAt y := by
  refine cachedAt_modifySurface.trans ?_
  simp only [State.cachedAt]
  cases s.surfaces x <;> simp

theorem Linking.cachedAt_eq {s₀ : State} {i : Nat} {transaction : Transaction}
    (h : Linking s₀ queue entries i s transaction) : s.cachedAt y = s₀.cachedAt y := by
  have := h.map_eq (x := y) (g := (·.cached)) fun _ => rfl
  rw [State.cachedAt, State.cachedAt]
  cases h₀ : s₀.surfaces y <;> cases h₁ : s.surfaces y <;> simp_all

theorem queueView_modifySurface (hf : ∀ surface, (f surface).ends = surface.ends) :
    (s.modifySurface x f).queueView = s.queueView := by
  refine queueView_of_links (fun _ => rfl) (fun y => ?_) rfl rfl rfl
  rw [modifySurface_surfaces]
  split
  case isTrue h => subst h; cases s.surfaces y <;> simp [hf]
  case isFalse => rfl

namespace Valid

theorem init : Valid {} fun _ => [] := by
  refine ⟨⟨?_, fun t links h => by simp [State.queueView] at h⟩, rfl, fun x entries h => by simp [State.cachedAt] at h⟩
  constructor <;> simp [State.queueView]

-- Everything but the queues and the caches may change, and a cache may be lost.
theorem of_queueView (h : Valid s queue) (hv : s'.queueView = s.queueView) (ha : s'.applying = s.applying)
    (hn : s'.nextSurface = s.nextSurface)
    (hc : ∀ x entries, s'.cachedAt x = some entries → s.cachedAt x = some entries) : Valid s' queue where
  consistent := h.consistent.of_queueView hv
  idle := ha.trans h.idle
  cached x entries hx := hn ▸ h.cached x entries (hc x entries hx)

theorem modifySurface (h : Valid s queue) (hf : ∀ surface, (f surface).ends = surface.ends)
    (hc : ∀ surface, (f surface).cached = surface.cached ∨ (f surface).cached = none) :
    Valid (s.modifySurface x f) queue := by
  refine h.of_queueView (queueView_modifySurface hf) rfl rfl fun y entries hy => ?_
  rw [cachedAt_modifySurface] at hy
  split at hy
  case isTrue hyx =>
    subst hyx
    obtain ⟨surface, hs, hy⟩ := Option.bind_eq_some_iff.mp hy
    rcases hc surface with hc | hc
    · simpa [State.cachedAt, hs, ← hc] using hy
    · simp [hc] at hy
  case isFalse => exact hy

theorem cachedAt_of_static (h : Static s s') : s'.cachedAt x = s.cachedAt x := by
  have := h.map_eq (x := x) (g := (·.cached)) fun _ => rfl
  simp only [State.cachedAt]
  cases hs : s.surfaces x <;> cases hs' : s'.surfaces x <;> simp_all

-- A call of `tryApply` is over when the transactions that it applied are gone.
theorem nested {queue' : SurfaceId → List TransactionId} (h : Valid s queue)
    (hn : Nested env ⟨s, queue⟩ ⟨s', queue'⟩) : Valid s' queue' where
  consistent := h.consistent.steps hn.steps
  idle       := hn.applying.trans h.idle
  cached x entries hx := by
    rw [cachedAt_of_static hn.steps.static] at hx
    exact hn.steps.static.nextSurface ▸ h.cached x entries hx

theorem tryApply (h : Valid s queue) (ht : s.tryApply env t = .ok s') :
    ∃ queue', Nested env ⟨s, queue⟩ ⟨s', queue'⟩ ∧ Valid s' queue' :=
  have ⟨queue', hn⟩ := tryApply_nested h.consistent ht
  ⟨queue', hn, h.nested hn⟩

theorem amendAll (h : Valid s queue) : Valid (s.amendAll x mutator) queue where
  consistent := h.consistent.of_queueView amendAll_queueView
  idle := h.idle
  cached y entries hy := by
    rw [cachedAt_amendAll] at hy
    split at hy
    case isTrue hyx =>
      obtain ⟨entries₀, h₀, rfl⟩ := Option.map_eq_some_iff.mp hy
      intro entry he
      obtain ⟨entry₀, he₀, rfl⟩ := List.mem_map.mp he
      have ⟨⟨h₁, h₂, h₃⟩, h₄⟩ := h.cached x entries₀ h₀ entry₀ he₀
      unfold TransactionEntry.amend
      split
      · exact ⟨⟨h₁, h₂, h₃⟩, h₄⟩
      · exact ⟨⟨h₁, h₂, h₃⟩, h₄⟩
    case isFalse => exact h.cached y entries hy

theorem amend (h : Valid s queue) (ha : s.amend x mutator = .ok s') : s' = s.amendAll x mutator ∧ Valid s' queue := by
  have ⟨_, heq⟩ := amend_eq h.consistent h.idle ha
  exact ⟨heq, heq ▸ h.amendAll⟩

theorem commit (h : Valid s queue)
    (he : ∀ entry ∈ entries, entry.Unlinked ∧ entry.surface < s.nextSurface) (hs : s.commit env entries = .ok s') :
    ∃ s₁ transaction queue', Linking s queue entries entries.length s₁ transaction ∧
      Valid s₁ (committedQueue s queue entries) ∧ s₁.tryApply env s.nextTransaction = .ok s' ∧
      Nested env ⟨s₁, committedQueue s queue entries⟩ ⟨s', queue'⟩ ∧ Valid s' queue' := by
  have ⟨s₁, transaction, hl, hc, heq⟩ := commit_linking env h.consistent
    fun entry hm => ⟨(he entry hm).1.previous, (he entry hm).1.next, (he entry hm).2⟩
  rw [heq] at hs
  have hv : Valid s₁ (committedQueue s queue entries) := by
    refine ⟨hc, by rw [hl.rest]; exact h.idle, fun x entries' hx => ?_⟩
    rw [hl.cachedAt_eq] at hx
    rw [hl.rest]
    exact h.cached x entries' hx
  have ⟨queue', hn, hv'⟩ := hv.tryApply hs
  exact ⟨s₁, transaction, queue', hl, hv, hs, hn, hv'⟩

end Valid

def Settled (s : State) : Prop :=
  ∃ queue, Valid s queue

namespace Settled

theorem modifySurface (h : Settled s) (hf : ∀ surface, (f surface).ends = surface.ends)
    (hc : ∀ surface, (f surface).cached = surface.cached ∨ (f surface).cached = none) :
    Settled (s.modifySurface x f) :=
  h.imp fun _ h => h.modifySurface hf hc

-- A change of what neither the queues nor the caches depend on.
theorem of_surfaces (h : Settled s) (hs : s'.surfaces = s.surfaces) (ht : s'.transactions = s.transactions)
    (ha : s'.applying = s.applying) (hns : s'.nextSurface = s.nextSurface)
    (hnt : s'.nextTransaction = s.nextTransaction) : Settled s' := by
  refine h.imp fun _ h => h.of_queueView ?_ ha hns fun x entries hx => ?_
  · simp only [State.queueView, hs, ht, ha, hns, hnt]
  · simpa [State.cachedAt, hs] using hx

theorem tryApply (h : Settled s) (ht : s.tryApply env t = .ok s') : Settled s' :=
  have ⟨_, h⟩ := h
  have ⟨queue', _, hv⟩ := h.tryApply ht
  ⟨queue', hv⟩

theorem tryApplyFirst (h : Settled s) (ht : s.tryApplyFirst env x = .ok s') : Settled s' := by
  have ⟨_, _, ht⟩ := tryApplyFirst_cases ht
  rcases ht with ⟨_, rfl⟩ | ⟨t, _, ht⟩
  · exact h
  · exact h.tryApply ht

theorem amend (h : Settled s) (ha : s.amend x mutator = .ok s') : Settled s' :=
  h.imp fun _ h => (h.amend ha).2

theorem commit (h : Settled s) (he : ∀ entry ∈ entries, entry.Unlinked ∧ entry.surface < s.nextSurface)
    (hs : s.commit env entries = .ok s') : Settled s' :=
  have ⟨_, h⟩ := h
  have ⟨_, _, queue', _, _, _, _, hv⟩ := h.commit he hs
  ⟨queue', hv⟩

theorem nextRoleGeneration (h : Settled s) (hn : s.nextRoleGeneration env x = .ok s') : Settled s' := by
  refine tryApplyFirst (h.modifySurface ?_ ?_) hn
  exacts [fun _ => rfl, fun _ => .inl rfl]

theorem createSubSurface (h : Settled s) (hc : s.createSubSurface x y = .ok s') : Settled s' := by
  refine amend ?_ hc
  refine modifySurface (modifySurface ?_ (fun _ => rfl) (fun _ => .inl rfl)) (fun _ => rfl) (fun _ => .inl rfl)
  exact h.of_surfaces rfl rfl rfl rfl rfl

theorem getSubsurface (h : Settled s) (hg : s.getSubsurface env x y = .ok s') : Settled s' := by
  have ⟨surface, parentSurface, _, _, hg⟩ := getSubsurface_cases hg
  rcases hg with ⟨_, _, rfl⟩ | ⟨s₁, _, h₁, hg⟩
  case inl => exact h
  case inr =>
    have hs₁ : Settled s₁ := by
      refine nextRoleGeneration ?_ h₁
      split
      · exact h.modifySurface (fun _ => rfl) (fun _ => .inl rfl)
      · exact h
    rcases hg with ⟨_, rfl⟩ | ⟨_, main, _, ⟨_, rfl⟩ | ⟨_, hc⟩⟩
    · exact hs₁
    · exact hs₁
    · exact hs₁.createSubSurface hc

theorem removeFromParent (h : Settled s) (hr : s.removeFromParent e y = .ok s') : Settled s' := by
  rcases removeFromParent_cases hr with ⟨_, rfl⟩ | ⟨_, hr⟩
  · exact h
  · refine amend (h.modifySurface ?_ ?_) hr
    exacts [fun _ => rfl, fun _ => .inl rfl]

theorem releaseSurface (h : Settled s) (hr : s.releaseSurface env x = .ok s') : Settled s' := by
  rcases releaseSurface_cases hr with ⟨_, rfl⟩ | ⟨_, hr⟩
  · exact h
  · refine nextRoleGeneration (h.modifySurface ?_ ?_) hr
    exacts [fun _ => rfl, fun _ => .inr rfl]

theorem destroySubSurface (h : Settled s) (hd : s.destroySubSurface env e = .ok s') : Settled s' := by
  have ⟨sub, s₁, s₂, _, h₁, h₂, heq⟩ := destroySubSurface_cases hd
  rw [heq]
  exact ((h.removeFromParent h₁).releaseSurface h₂).of_surfaces rfl rfl rfl rfl rfl

theorem removeSurface (h : Settled s) : Settled (s.removeSurface x) := by
  refine h.imp fun _ h => ⟨h.consistent.removeSurface, h.idle, fun y entries hy => h.cached y entries ?_⟩
  by_cases hyx : y = x
  case pos => simp [State.cachedAt, State.removeSurface, hyx] at hy
  case neg => simpa [State.cachedAt, State.removeSurface, hyx] using hy

theorem destroySurface (h : Settled s) (hd : s.destroySurface env x = .ok s') : Settled s' := by
  obtain ⟨s₁, h₁, hd⟩ := bind_eq_ok.mp hd
  have hs₁ : Settled s₁ := by
    refine tryApplyFirst (h.modifySurface ?_ ?_) h₁
    exacts [fun _ => rfl, fun _ => .inl rfl]
  refine foldlM_preserves Settled (fun e _ s₂ s₃ h₂ h₃ => ?_) hs₁.removeSurface hd
  split at h₃
  case h_1 => exact pure_eq_ok.mp h₃ ▸ h₂
  case h_2 =>
    split at h₃
    case isTrue => exact h₂.destroySubSurface h₃
    case isFalse => exact pure_eq_ok.mp h₃ ▸ h₂

-- While a request collects the caches of its children, what it has collected is not linked.
theorem takeCached (h : Settled s ∧ ∀ entry ∈ own, entry.Unlinked ∧ entry.surface < s.nextSurface)
    (ht : takeCached (s, own) e = .ok (s', own')) :
    Settled s' ∧ ∀ entry ∈ own', entry.Unlinked ∧ entry.surface < s'.nextSurface := by
  obtain ⟨sub, child, _, hc, rfl, rfl⟩ := takeCached_cases ht
  refine ⟨h.1.modifySurface (fun _ => rfl) (fun _ => .inr rfl), fun entry he => ?_⟩
  rcases List.mem_append.mp he with he | he
  · exact h.2 entry he
  · cases hca : child.cached
    case none => simp [hca] at he
    case some entries =>
      obtain ⟨_, hv⟩ := h.1
      exact hv.cached sub.surface entries (by simp [State.cachedAt, hc, hca]) entry (by simpa [hca] using he)

theorem addPending_unlinked (pending : SurfaceState) {n : Nat}
    (h : ∀ entry ∈ own, entry.Unlinked ∧ entry.surface < n) (hx : x < n) :
    ∀ entry ∈ addPending x pending own, entry.Unlinked ∧ entry.surface < n := by
  induction own
  case nil =>
    intro entry he
    obtain rfl := List.mem_singleton.mp he
    exact ⟨⟨rfl, rfl, rfl⟩, hx⟩
  case cons a own ih =>
    intro entry he
    have ha := h a List.mem_cons_self
    unfold addPending at he
    split at he
    case isTrue =>
      rcases List.mem_cons.mp he with rfl | he
      · exact ⟨⟨ha.1.previous, ha.1.next, ha.1.fences⟩, ha.2⟩
      · exact h entry (List.mem_cons_of_mem _ he)
    case isFalse =>
      rcases List.mem_cons.mp he with rfl | he
      · exact ha
      · exact ih (fun entry he => h entry (List.mem_cons_of_mem _ he)) entry he

theorem lt_nextSurface (h : Settled s) (hx : s.surfaces x = some surface) : x < s.nextSurface :=
  have ⟨_, h⟩ := h
  h.consistent.queues.alive x surface.ends (by simp [State.queueView, hx])

-- What a wl_surface.commit has collected when it caches or commits it.
theorem collected (h : Settled s) {sync : Bool} {children : List SubSurfaceId}
    (hx : s.surfaces x = some surface)
    (hfold : children.foldlM State.takeCached ({ s with nextSerial := s.nextSerial + 1 },
      if sync then surface.cached.getD [] else []) = .ok (s', own)) :
    Settled s' ∧ ∀ entry ∈ own, entry.Unlinked ∧ entry.surface < s'.nextSurface := by
  refine foldlM_preserves
    (fun p => Settled p.1 ∧ ∀ entry ∈ p.2, entry.Unlinked ∧ entry.surface < p.1.nextSurface)
    (fun _ _ _ _ hp ht => takeCached hp ht) ⟨h.of_surfaces rfl rfl rfl rfl rfl, fun entry he => ?_⟩ hfold
  cases sync
  case false => simp at he
  case true =>
    obtain ⟨_, hv⟩ := h
    cases hc : surface.cached
    case none => simp [hc] at he
    case some entries => exact hv.cached x entries (by simp [State.cachedAt, hx, hc]) entry (by simpa [hc] using he)

theorem setCached (h : Settled s) (he : ∀ entry ∈ entries, entry.Unlinked ∧ entry.surface < s.nextSurface)
    (hf : ∀ surface, (f surface).ends = surface.ends) (hc : ∀ surface, (f surface).cached = some entries) :
    Settled (s.modifySurface x f) := by
  refine h.imp fun _ h => ⟨h.consistent.of_queueView (queueView_modifySurface hf), h.idle, fun y entries' hy => ?_⟩
  rw [cachedAt_modifySurface] at hy
  split at hy
  case isTrue =>
    obtain ⟨surface, _, hy⟩ := Option.bind_eq_some_iff.mp hy
    obtain rfl : entries = entries' := Option.some.inj ((hc surface).symm.trans hy)
    exact he
  case isFalse => exact h.cached y entries' hy

theorem surfaceCommit (h : Settled s) (hs : s.surfaceCommit env x = .ok s') : Settled s' := by
  have ⟨surface, sync, generation, s₁, own, hx, _, _, hfold, hs⟩ := surfaceCommit_cases hs
  have ⟨h₁, hown⟩ := h.collected hx hfold
  have hn : x < s₁.nextSurface := by
    rw [(takeCached_same hfold).rest]
    exact h.lt_nextSurface hx
  have he := addPending_unlinked (s.committedPending surface generation sync) hown hn
  split at hs
  case isTrue =>
    rw [hs]
    exact h₁.setCached he (fun _ => rfl) (fun _ => rfl)
  case isFalse =>
    refine commit (h₁.modifySurface ?_ ?_) he hs
    exacts [fun _ => rfl, fun _ => .inl rfl]

theorem commitCached (h : Settled s) (hs : s.commitCached env x = .ok s') : Settled s' := by
  have ⟨surface, hx, hs⟩ := commitCached_cases hs
  rcases hs with ⟨_, rfl⟩ | ⟨entries, hc, hs⟩
  case inl => exact h
  case inr =>
    have ⟨_, hv⟩ := h
    refine commit (h.modifySurface ?_ ?_) ?_ hs
    exacts [fun _ => rfl, fun _ => .inr rfl, hv.cached x entries (by simp [State.cachedAt, hx, hc])]

theorem setDesync (h : Settled s) (hs : s.setDesync env e = .ok s') : Settled s' := by
  have ⟨sub, _, hs⟩ := setDesync_cases hs
  rcases hs with ⟨_, rfl⟩ | ⟨_, s₁, rfl, ⟨_, rfl⟩ | ⟨_, hs⟩⟩
  · exact h
  · exact h.of_surfaces rfl rfl rfl rfl rfl
  · refine parentDesynchronizedFrom_induct Settled (fun _ _ _ h hs => h.commitCached hs) ?_ hs
    exact h.of_surfaces rfl rfl rfl rfl rfl

theorem setFences (h : Settled s) {i : Nat} {f : List Bool → List Bool} :
    Settled (s.modifyEntry t i fun entry => { entry with fences := f entry.fences }) := by
  refine h.imp fun _ h => h.of_queueView (queueView_of_links (fun a => ?_) (fun _ => rfl) rfl rfl rfl) rfl rfl
    fun _ _ hx => hx
  simp only [modifyEntry, modifyEntries]
  by_cases ha : a = t
  case neg => simp [ha]
  case pos =>
    subst ha
    rw [Function.update_self, Option.map_map]
    cases s.transactions a
    case none => rfl
    case some transaction => exact congrArg some (map_modify fun _ => rfl)

theorem signalFence (h : Settled s) {i j : Nat} (hs : s.signalFence env t i j = .ok s') : Settled s' := by
  refine tryApply ?_ hs
  exact h.setFences (f := (·.set j false))

theorem clearFifoBarrier (h : Settled s) (hs : s.clearFifoBarrier env x = .ok s') : Settled s' := by
  have ⟨_, _, hs⟩ := clearFifoBarrier_cases hs
  rcases hs with ⟨_, rfl⟩ | ⟨_, hs⟩
  · exact h
  · refine tryApplyFirst (h.modifySurface ?_ ?_) hs
    exacts [fun _ => rfl, fun _ => .inl rfl]

theorem createSurface (h : Settled s) : Settled s.createSurface := by
  refine h.imp fun _ h => ⟨h.consistent.createSurface, h.idle, fun y entries hy => ?_⟩
  have : s.cachedAt y = some entries := by
    by_cases hyn : y = s.nextSurface
    case pos => simp [State.cachedAt, State.createSurface, hyn] at hy
    case neg => simpa [State.cachedAt, State.createSurface, hyn] using hy
  exact fun entry he => (h.cached y entries this entry he).imp_right fun hl => hl.trans (Nat.lt_succ_self _)

theorem modifyPending (h : Settled s) {f : SurfaceState → SurfaceState} : Settled (s.modifyPending x f) :=
  h.modifySurface (fun _ => rfl) (fun _ => .inl rfl)

theorem addExtension (h : Settled s) : Settled (s.addExtension x) := by
  refine modifyPending ?_
  exact h.of_surfaces rfl rfl rfl rfl rfl

theorem removeExtension (h : Settled s) {extension : ExtensionId}
    (hs : s.removeExtension extension x = .ok s') : Settled s' := by
  refine amend (modifyPending ?_) hs
  exact h.of_surfaces rfl rfl rfl rfl rfl

theorem handle (h : Settled s) {event : Event} (he : s.enabled event) (hs : s.handle env event = .ok s') :
    Settled s' := by
  cases event <;> simp only [State.handle] at hs
  case createSurface => exact pure_eq_ok.mp hs ▸ h.createSurface
  case setRole => exact pure_eq_ok.mp hs ▸ h.modifySurface (fun _ => rfl) (fun _ => .inl rfl)
  case attach | setBarrier | waitBarrier => exact pure_eq_ok.mp hs ▸ h.modifyPending
  case addExtension => exact pure_eq_ok.mp hs ▸ h.addExtension
  case removeExtension e =>
    cases hx : s.extensions e <;> simp only [hx, Option.elim] at hs
    · exact pure_eq_ok.mp hs ▸ h
    · exact h.removeExtension hs
  case getSubsurface => exact h.getSubsurface hs
  case placeAbove | placeBelow =>
    simp only [placeChild, bind_eq_ok] at hs
    obtain ⟨_, _, _, _, hs⟩ := hs
    exact pure_eq_ok.mp hs ▸ h.modifyPending
  case setSync =>
    obtain ⟨_, _, hs⟩ := bind_eq_ok.mp hs
    exact pure_eq_ok.mp hs ▸ h.of_surfaces rfl rfl rfl rfl rfl
  case setDesync => exact h.setDesync hs
  case commit => exact h.surfaceCommit hs
  case destroySubSurface => exact h.destroySubSurface hs
  case destroySurface => exact h.destroySurface hs
  case signalFence => exact h.signalFence hs
  case clearFifoBarrier => exact h.clearFifoBarrier hs
  case nextRoleGeneration => exact h.nextRoleGeneration hs
  case commitTransaction states =>
    refine h.commit (fun entry hm => ?_) hs
    obtain ⟨p, hp, rfl⟩ := List.mem_map.mp hm
    exact ⟨⟨rfl, rfl, rfl⟩, by simpa using List.all_eq_true.mp he p hp⟩

-- The queues are in order in every run.
theorem reachable {P : State → Event → Prop} (h : State.Reachable env P s) : Settled s := by
  induction h
  case init => exact ⟨_, Valid.init⟩
  case step he _ hs ih => exact ih.handle he hs

end Settled

end KWin
