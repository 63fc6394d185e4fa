import PlasmaModel.Wayland.Theorems.Forest

namespace KWin

open Fallible State

namespace SurfaceState

-- The parts of a state in which it refers to other objects.
structure Lists where
  below      : List SubSurfaceId
  above      : List SubSurfaceId
  extensions : List ExtensionId

def lists (state : SurfaceState) : Lists :=
  ⟨state.below, state.above, state.extensions⟩

@[simp]
theorem mergeInto_lists (state target : SurfaceState) : (state.mergeInto target).lists = state.lists :=
  rfl

@[simp]
theorem merged_lists (state : SurfaceState) : state.merged.lists = state.lists :=
  rfl

end SurfaceState

-- Where the states of a surface are: its own, and the ones that are cached or queued for it.
inductive State.Holds (s : State) (q : SurfaceId) : SurfaceState → Prop
  | current {surface : Surface} : s.surfaces q = some surface → Holds s q surface.current
  | pending {surface : Surface} : s.surfaces q = some surface → Holds s q surface.pending
  | cached {entry : TransactionEntry} : (s.surfaces q).isSome → s.cachedAt y = some entries →
      entry ∈ entries → entry.surface = q → Holds s q entry.state
  | queued {entry : TransactionEntry} {transaction : Transaction} : (s.surfaces q).isSome →
      s.transactions t = some transaction → entry ∈ transaction.entries → entry.surface = q →
      Holds s q entry.state

variable {env : Environment} {s s' s'' : State} {queue queue' : SurfaceId → List TransactionId} {c c' : Config}
variable {x y q : SurfaceId} {e : SubSurfaceId} {t : TransactionId} {state next : SurfaceState}
variable {entry : TransactionEntry} {entries : List TransactionEntry} {surface : Surface}
variable {Φ : SurfaceId → SurfaceState.Lists → Prop} {mutator : SurfaceState → SurfaceState}
variable {f : Surface → Surface} {transaction : Transaction}

def AllLists (s : State) (Φ : SurfaceId → SurfaceState.Lists → Prop) : Prop :=
  ∀ q state, s.Holds q state → Φ q state.lists

theorem TransactionEntry.eraseLinks_eq {entry' : TransactionEntry} (h : entry.eraseLinks = entry'.eraseLinks) :
    entry.surface = entry'.surface ∧ entry.state = entry'.state := by
  have hx := congrArg TransactionEntry.surface h
  have hs := congrArg TransactionEntry.state h
  exact ⟨hx, hs⟩

theorem TransactionEntry.eraseNext_eq {entry' : TransactionEntry} (h : entry.eraseNext = entry'.eraseNext) :
    entry.surface = entry'.surface ∧ entry.state = entry'.state := by
  have hx := congrArg TransactionEntry.surface h
  have hs := congrArg TransactionEntry.state h
  exact ⟨hx, hs⟩

theorem applyState_current (h : s.applyState x next = .ok s') (hq : s'.surfaces q = some surface) :
    ∃ surface₀, s.surfaces q = some surface₀ ∧
      surface.current.lists = if q = x then next.lists else surface₀.current.lists := by
  have ⟨surface₁, s₁, hs, h₁, h₂⟩ := applyState_cases h
  have e₁ := (updateVisibility_same h₁).map_eq (x := q) (g := (·.current.lists)) fun _ => rfl
  have e₂ := (clearBarriersOfUnmapped_same h₂).map_eq (x := q) (g := (·.current.lists)) fun _ => rfl
  have heq := e₂.trans e₁
  rw [hq] at heq
  by_cases hqx : q = x
  case pos =>
    subst hqx
    refine ⟨surface₁, hs, ?_⟩
    simpa [setSurface] using heq
  case neg =>
    obtain ⟨surface₀, h₀, hl⟩ := Option.map_eq_some_iff.mp heq.symm
    refine ⟨surface₀, by simpa [setSurface, hqx] using h₀, ?_⟩
    simpa [hqx] using hl.symm

theorem applyEntries_current (h : entries.foldlM (applyEntry t) s = .ok s') (hq : s'.surfaces q = some surface) :
    ∃ surface₀, s.surfaces q = some surface₀ ∧ (surface.current.lists = surface₀.current.lists ∨
      ∃ entry ∈ entries, entry.surface = q ∧ entry.state.lists = surface.current.lists) := by
  refine foldlM_preserves (fun s' => ∀ surface, s'.surfaces q = some surface →
    ∃ surface₀, s.surfaces q = some surface₀ ∧ (surface.current.lists = surface₀.current.lists ∨
      ∃ entry ∈ entries, entry.surface = q ∧ entry.state.lists = surface.current.lists))
    (fun entry he s₁ s₂ h₁ h₂ surface hs => ?_) (fun surface hs => ⟨surface, hs, .inl rfl⟩) h surface hq
  unfold applyEntry at h₂
  split at h₂
  case isTrue => exact h₁ surface (pure_eq_ok.mp h₂ ▸ hs)
  case isFalse =>
    obtain ⟨s₃, h₃, h₂⟩ := bind_eq_ok.mp h₂
    obtain rfl := pure_eq_ok.mp h₂
    have ⟨surface₁, hs₁, hl⟩ := applyState_current h₃ hs
    have ⟨surface₀, hs₀, hor⟩ := h₁ surface₁ hs₁
    refine ⟨surface₀, hs₀, ?_⟩
    split at hl
    case isTrue hx => exact .inr ⟨entry, he, hx.symm, hl.symm⟩
    case isFalse => rwa [hl]

theorem mem_clearPrevious (h : entry ∈ clearPrevious t entries) : ∃ entry₀ ∈ entries,
    entry₀.surface = entry.surface ∧ entry₀.state = entry.state := by
  induction entries
  case nil => simp [clearPrevious] at h
  case cons a entries ih =>
    unfold clearPrevious at h
    split at h
    case isTrue =>
      rcases List.mem_cons.mp h with rfl | h
      · exact ⟨a, List.mem_cons_self, rfl, rfl⟩
      · exact ⟨entry, List.mem_cons_of_mem _ h, rfl, rfl⟩
    case isFalse =>
      rcases List.mem_cons.mp h with rfl | h
      · exact ⟨entry, List.mem_cons_self, rfl, rfl⟩
      · obtain ⟨entry₀, hm, he⟩ := ih h
        exact ⟨entry₀, List.mem_cons_of_mem _ hm, he⟩

theorem AllLists.applyStates (ha : AllLists s Φ) (h : s.applyStates env t = .ok s') : AllLists s' Φ := by
  have ⟨transaction, s₁, htr, _, h₁, h₂⟩ := applyStates_cases h
  have hsame := applyEntries_same h₁
  have halive : ∀ {q}, (s'.surfaces q).isSome → (s.surfaces q).isSome := fun {q} hq => by
    rw [h₂] at hq
    rwa [← hsame.isSome_eq]
  have hmem : ∀ {entry}, entry ∈ env.sort s transaction.entries → entry ∈ transaction.entries :=
    fun h => (env.sort_perm s _).mem_iff.mp h
  subst h₂
  intro q state hh
  cases hh
  case current surface hs =>
    have ⟨surface₀, hs₀, hl⟩ := applyEntries_current h₁ hs
    rcases hl with hl | ⟨entry, he, rfl, hl⟩
    · rw [hl]
      exact ha _ _ (.current hs₀)
    · rw [← hl]
      exact ha _ _ (.queued (by simpa using congrArg Option.isSome hs₀) htr (hmem he) rfl)
  case pending surface hs =>
    have := hsame.map_eq (x := q) (g := (·.pending)) fun _ => rfl
    rw [show s₁.surfaces q = some surface from hs] at this
    obtain ⟨surface₀, hs₀, hp⟩ := Option.map_eq_some_iff.mp this.symm
    have hp : surface₀.pending = surface.pending := hp
    rw [← hp]
    exact ha _ _ (.pending hs₀)
  case cached y entries entry hq hc he hx =>
    refine ha _ _ (.cached (halive hq) (show s.cachedAt y = some entries from ?_) he hx)
    have := hsame.map_eq (x := y) (g := (·.cached)) fun _ => rfl
    simp only [State.cachedAt] at hc ⊢
    rw [← hc]
    cases h₀ : s.surfaces y <;> cases h₁ : s₁.surfaces y <;> simp_all [setEntries]
  case queued t' entry transaction' hq ht' he hx =>
    by_cases htt : t' = t
    case pos =>
      subst htt
      obtain rfl : ⟨_⟩ = transaction' := by simpa [setEntries] using ht'
      obtain ⟨entry₀, he₀, rfl⟩ := List.mem_map.mp he
      have : (s₁.mergedEntry entry₀).state.lists = entry₀.state.lists ∧
          (s₁.mergedEntry entry₀).surface = entry₀.surface := by
        unfold mergedEntry
        split <;> exact ⟨rfl, rfl⟩
      rw [this.1]
      exact ha _ _ (.queued (halive hq) htr (hmem he₀) (this.2.symm.trans hx))
    case neg =>
      have hr := hsame.rest
      refine ha _ _ (.queued (halive hq) (show s.transactions t' = some transaction' from ?_) he hx)
      rw [hr] at ht'
      simpa [setEntries, htt] using ht'

namespace AllLists

-- Besides what is there already, the states of `new` may appear.
theorem of_surfaces (ha : AllLists s Φ)
    (hs : ∀ q surface, s'.surfaces q = some surface → ∃ surface₀, s.surfaces q = some surface₀ ∧
      surface.current.lists = surface₀.current.lists ∧ surface.pending.lists = surface₀.pending.lists)
    (hc : ∀ y entries, s'.cachedAt y = some entries → s.cachedAt y = some entries)
    (ht : ∀ t transaction, s'.transactions t = some transaction → ∀ entry ∈ transaction.entries,
      (s.surfaces entry.surface).isSome → (∃ transaction₀, s.transactions t = some transaction₀ ∧
        ∃ entry₀ ∈ transaction₀.entries, entry₀.surface = entry.surface ∧ entry₀.state.lists = entry.state.lists) ∨
        Φ entry.surface entry.state.lists) : AllLists s' Φ := by
  have halive : ∀ {q}, (s'.surfaces q).isSome → (s.surfaces q).isSome := fun {q} hq => by
    have ⟨surface, h⟩ := Option.isSome_iff_exists.mp hq
    have ⟨_, h₀, _⟩ := hs q surface h
    simp [h₀]
  intro q state hh
  cases hh
  case current surface h =>
    have ⟨surface₀, h₀, hl, _⟩ := hs q surface h
    exact hl ▸ ha _ _ (.current h₀)
  case pending surface h =>
    have ⟨surface₀, h₀, _, hl⟩ := hs q surface h
    exact hl ▸ ha _ _ (.pending h₀)
  case cached y entries entry hq h he hx => exact ha _ _ (.cached (halive hq) (hc y entries h) he hx)
  case queued t entry transaction hq h he hx =>
    rcases ht t transaction h entry he (halive (hx.symm ▸ hq)) with ⟨transaction₀, h₀, entry₀, he₀, hx₀, hl⟩ | hnew
    · exact hl ▸ ha _ _ (.queued (halive hq) h₀ he₀ (hx₀.trans hx))
    · exact hx ▸ hnew

theorem modifySurface (ha : AllLists s Φ)
    (hf : ∀ surface, s.surfaces x = some surface → (f surface).current.lists = surface.current.lists ∧
      (f surface).pending.lists = surface.pending.lists)
    (hc : ∀ surface, (f surface).cached = surface.cached ∨ (f surface).cached = none) :
    AllLists (s.modifySurface x f) Φ := by
  refine ha.of_surfaces (fun q surface hs => ?_) (fun y entries hy => ?_) fun t transaction ht entry he _ =>
    .inl ⟨transaction, ht, entry, he, rfl, rfl⟩
  · rw [modifySurface_surfaces] at hs
    split at hs
    case isTrue hq =>
      subst hq
      obtain ⟨surface₀, h₀, rfl⟩ := Option.map_eq_some_iff.mp hs
      exact ⟨surface₀, h₀, hf surface₀ h₀⟩
    case isFalse => exact ⟨surface, hs, rfl, rfl⟩
  · rw [cachedAt_modifySurface] at hy
    split at hy
    case isTrue hyx =>
      subst hyx
      obtain ⟨surface, hs, hy⟩ := Option.bind_eq_some_iff.mp hy
      rcases hc surface with hc | hc
      · simpa [State.cachedAt, hs, ← hc] using hy
      · simp [hc] at hy
    case isFalse => exact hy

theorem unlink (ha : AllLists s Φ) (h : s.unlink t entry = .ok s') : AllLists s' Φ := by
  have hd : AllLists (s.dequeue t entry) Φ := by
    refine ha.modifySurface (fun surface _ => ?_) fun surface => ?_
    · split <;> exact ⟨rfl, rfl⟩
    · split <;> exact .inl rfl
  rcases unlink_cases h with ⟨_, rfl⟩ | ⟨next, transaction, _, htr, rfl⟩
  case inl => exact hd
  case inr =>
    refine hd.of_surfaces (fun _ surface hs => ⟨surface, hs, rfl, rfl⟩) (fun _ _ hc => hc)
      fun t' transaction' ht' entry' he' _ => .inl ?_
    by_cases htn : t' = next
    case pos =>
      subst htn
      obtain rfl : ⟨_⟩ = transaction' := by simpa [setEntries] using ht'
      obtain ⟨entry₀, he₀, hx, hst⟩ := mem_clearPrevious he'
      exact ⟨transaction, htr, entry₀, he₀, hx, by rw [hst]⟩
    case neg => exact ⟨transaction', by simpa [setEntries, htn] using ht', entry', he', rfl, rfl⟩

theorem delete (ha : AllLists s Φ) : AllLists (s.delete t) Φ := by
  refine ha.of_surfaces (fun _ surface hs => ⟨surface, hs, rfl, rfl⟩) (fun _ _ hc => hc)
    fun t' transaction' ht' entry' he' _ => .inl ⟨transaction', ?_, entry', he', rfl, rfl⟩
  by_cases htt : t' = t
  case pos => simp [State.delete, htt] at ht'
  case neg => simpa [State.delete, htt] using ht'

theorem step (ha : AllLists c.state Φ) (h : Step env c c') : AllLists c'.state Φ := by
  cases h
  case applyStates h => exact ha.applyStates h
  case unlink h => exact ha.unlink h
  case delete => exact ha.delete

theorem steps (ha : AllLists c.state Φ) (h : Steps env c c') : AllLists c'.state Φ := by
  induction h
  case refl => exact ha
  case tail hs ih => exact ih.step hs

theorem tryApply (ha : AllLists s Φ) (hv : Settled s) (h : s.tryApply env t = .ok s') : AllLists s' Φ := by
  have ⟨_, hv⟩ := hv
  have ⟨_, hn, _⟩ := hv.tryApply h
  exact ha.steps hn.steps

theorem tryApplyFirst (ha : AllLists s Φ) (hv : Settled s) (h : s.tryApplyFirst env x = .ok s') :
    AllLists s' Φ := by
  have ⟨_, _, h⟩ := tryApplyFirst_cases h
  rcases h with ⟨_, rfl⟩ | ⟨t, _, h⟩
  · exact ha
  · exact ha.tryApply hv h

theorem nextRoleGeneration (ha : AllLists s Φ) (hv : Settled s) (h : s.nextRoleGeneration env x = .ok s') :
    AllLists s' Φ := by
  refine tryApplyFirst (ha.modifySurface ?_ ?_) (hv.modifySurface ?_ ?_) h
  exacts [fun _ _ => ⟨rfl, rfl⟩, fun _ => .inl rfl, fun _ => rfl, fun _ => .inl rfl]

-- A commit moves the states that it is called with into the queues.
theorem linking {s₁ : State} (ha : AllLists s Φ) (hl : Linking s queue entries entries.length s₁ transaction)
    (hΦ : ∀ entry ∈ entries, (s.surfaces entry.surface).isSome → Φ entry.surface entry.state.lists) :
    AllLists s₁ Φ := by
  refine ha.of_surfaces (fun q surface hs => ?_) (fun y entries hy => ?_) fun t' transaction' ht' entry' he' halive => ?_
  · have := hl.map_eq (x := q) (g := fun a => (a.current, a.pending)) fun _ => rfl
    rw [hs] at this
    obtain ⟨surface₀, h₀, heq⟩ := Option.map_eq_some_iff.mp this.symm
    have ⟨h₁, h₂⟩ := Prod.mk.inj heq
    exact ⟨surface₀, h₀, by rw [h₁], by rw [h₂]⟩
  · exact hl.cachedAt_eq.symm.trans hy
  · by_cases htt : t' = s.nextTransaction
    case pos =>
      subst htt
      obtain rfl := Option.some.inj (ht'.symm.trans hl.found)
      have hmem : entry'.eraseLinks ∈ entries.map (·.eraseLinks) := hl.own ▸ List.mem_map_of_mem he'
      obtain ⟨entry₀, he₀, heq⟩ := List.mem_map.mp hmem
      have ⟨hx, hst⟩ := TransactionEntry.eraseLinks_eq heq
      exact .inr (hx ▸ hst ▸ hΦ entry₀ he₀ (hx.symm ▸ halive))
    case neg =>
      have := hl.others t' htt
      rw [ht'] at this
      obtain ⟨transaction₀, h₀, heq⟩ := Option.map_eq_some_iff.mp this.symm
      have hmem : entry'.eraseNext ∈ transaction₀.entries.map (·.eraseNext) := heq ▸ List.mem_map_of_mem he'
      obtain ⟨entry₀, he₀, heq⟩ := List.mem_map.mp hmem
      have ⟨hx, hst⟩ := TransactionEntry.eraseNext_eq heq
      exact .inl ⟨transaction₀, h₀, entry₀, he₀, hx, by rw [hst]⟩

theorem commit (ha : AllLists s Φ) (hv : Settled s)
    (he : ∀ entry ∈ entries, entry.Unlinked ∧ entry.surface < s.nextSurface)
    (hΦ : ∀ entry ∈ entries, (s.surfaces entry.surface).isSome → Φ entry.surface entry.state.lists)
    (h : s.commit env entries = .ok s') : AllLists s' Φ := by
  have ⟨_, hv⟩ := hv
  have ⟨_, _, _, hl, _, _, hn, _⟩ := hv.commit he h
  exact steps (ha.linking hl hΦ) hn.steps

theorem takeCached {own own' : List TransactionEntry}
    (h : AllLists s Φ ∧ ∀ entry ∈ own, (s.surfaces entry.surface).isSome → Φ entry.surface entry.state.lists)
    (ht : takeCached (s, own) e = .ok (s', own')) :
    AllLists s' Φ ∧ ∀ entry ∈ own', (s'.surfaces entry.surface).isSome → Φ entry.surface entry.state.lists := by
  obtain ⟨sub, child, _, hc, rfl, rfl⟩ := takeCached_cases ht
  refine ⟨h.1.modifySurface (fun _ _ => ⟨rfl, rfl⟩) (fun _ => .inr rfl), fun entry he halive => ?_⟩
  have halive : (s.surfaces entry.surface).isSome := by
    rw [modifySurface_surfaces] at halive
    split at halive
    case isTrue hx => simp [hx, hc]
    case isFalse => exact halive
  rcases List.mem_append.mp he with he | he
  · exact h.2 entry he halive
  · cases hca : child.cached
    case none => simp [hca] at he
    case some entries =>
      exact h.1 _ _ (.cached halive
        (show s.cachedAt sub.surface = some entries by simp [State.cachedAt, hc, hca])
        (by simpa [hca] using he) rfl)

theorem mem_addPending {pending : SurfaceState} {own : List TransactionEntry} (h : entry ∈ addPending x pending own) :
    entry ∈ own ∨ (entry.surface = x ∧ entry.state.lists = pending.lists) := by
  induction own
  case nil =>
    obtain rfl := List.mem_singleton.mp h
    exact .inr ⟨rfl, rfl⟩
  case cons a own ih =>
    unfold addPending at h
    split at h
    case isTrue hx =>
      rcases List.mem_cons.mp h with rfl | h
      · exact .inr ⟨hx, rfl⟩
      · exact .inl (List.mem_cons_of_mem _ h)
    case isFalse =>
      rcases List.mem_cons.mp h with rfl | h
      · exact .inl List.mem_cons_self
      · exact (ih h).imp_left (List.mem_cons_of_mem _)

theorem collected (ha : AllLists s Φ) {sync : Bool} {children : List SubSurfaceId} {own : List TransactionEntry}
    (hx : s.surfaces x = some surface)
    (hfold : children.foldlM State.takeCached ({ s with nextSerial := s.nextSerial + 1 },
      if sync then surface.cached.getD [] else []) = .ok (s', own)) :
    AllLists s' Φ ∧ ∀ entry ∈ own, (s'.surfaces entry.surface).isSome → Φ entry.surface entry.state.lists := by
  refine foldlM_preserves (fun p => AllLists p.1 Φ ∧
    ∀ entry ∈ p.2, (p.1.surfaces entry.surface).isSome → Φ entry.surface entry.state.lists)
    (fun _ _ _ _ hp ht => takeCached hp ht) ⟨?_, fun entry he halive => ?_⟩ hfold
  · exact ha.of_surfaces (fun _ surface hs => ⟨surface, hs, rfl, rfl⟩) (fun _ _ hc => hc)
      fun _ transaction ht entry he _ => .inl ⟨transaction, ht, entry, he, rfl, rfl⟩
  · cases sync
    case false => simp at he
    case true =>
      cases hc : surface.cached
      case none => simp [hc] at he
      case some entries =>
        exact ha _ _ (.cached halive (show s.cachedAt x = some entries by simp [State.cachedAt, hx, hc])
          (by simpa [hc] using he) rfl)

theorem setCached (ha : AllLists s Φ)
    (hΦ : ∀ entry ∈ entries, (s.surfaces entry.surface).isSome → Φ entry.surface entry.state.lists)
    (hf : ∀ surface, s.surfaces x = some surface → (f surface).current.lists = surface.current.lists ∧
      (f surface).pending.lists = surface.pending.lists)
    (hc : ∀ surface, (f surface).cached = some entries) : AllLists (s.modifySurface x f) Φ := by
  intro q state hh
  -- All states but the new cached ones are in the state without the cache, too.
  have hold : AllLists (s.modifySurface x fun surface => { f surface with cached := none }) Φ :=
    ha.modifySurface hf fun _ => .inr rfl
  have hsurf : ∀ {y surface}, (s.modifySurface x f).surfaces y = some surface → ∃ surface₀,
      (s.modifySurface x fun surface => { f surface with cached := none }).surfaces y = some surface₀ ∧
        surface₀.current = surface.current ∧ surface₀.pending = surface.pending := by
    intro y surface hy
    rw [modifySurface_surfaces] at hy ⊢
    split at hy
    case isTrue hyx =>
      obtain ⟨surface₀, h₀, rfl⟩ := Option.map_eq_some_iff.mp hy
      exact ⟨{ f surface₀ with cached := none }, by simp [hyx, h₀], rfl, rfl⟩
    case isFalse hyx => exact ⟨surface, by simp [hyx, hy], rfl, rfl⟩
  have halive : ∀ {q}, ((s.modifySurface x f).surfaces q).isSome → (s.surfaces q).isSome := by
    intro q hq
    rw [modifySurface_surfaces] at hq
    split at hq
    case isTrue h => subst h; simpa using hq
    case isFalse => exact hq
  cases hh
  case current surface hs =>
    have ⟨surface₀, h₀, hl, _⟩ := hsurf hs
    exact hl ▸ hold _ _ (.current h₀)
  case pending surface hs =>
    have ⟨surface₀, h₀, _, hl⟩ := hsurf hs
    exact hl ▸ hold _ _ (.pending h₀)
  case cached y entries' entry hq hy he hxe =>
    rw [cachedAt_modifySurface] at hy
    split at hy
    case isTrue =>
      obtain ⟨surface, _, hy⟩ := Option.bind_eq_some_iff.mp hy
      obtain rfl : entries = entries' := Option.some.inj ((hc surface).symm.trans hy)
      exact hxe ▸ hΦ entry he (hxe.symm ▸ halive hq)
    case isFalse => exact ha _ _ (.cached (halive hq) hy he hxe)
  case queued hq ht he hxe => exact ha _ _ (.queued (halive hq) ht he hxe)

-- What is about to be cached or committed has lists as before.
theorem addPending (ha : AllLists s Φ) {sync : Bool} (generation : UInt32) {own : List TransactionEntry}
    (hx : s.surfaces x = some surface)
    (hfold : surface.pending.children.foldlM State.takeCached ({ s with nextSerial := s.nextSerial + 1 },
      if sync then surface.cached.getD [] else []) = .ok (s', own)) :
    ∀ entry ∈ addPending x (s.committedPending surface generation sync) own,
      (s'.surfaces entry.surface).isSome → Φ entry.surface entry.state.lists := by
  intro entry hm halive
  rcases mem_addPending hm with hm | ⟨rfl, hl⟩
  · exact (ha.collected hx hfold).2 entry hm halive
  · have := ha _ _ (.pending hx)
    rw [hl]
    exact this

theorem setPending {sync : Bool} (generation : UInt32) {own : List TransactionEntry} (hx : s.surfaces x = some surface)
    (hfold : surface.pending.children.foldlM State.takeCached ({ s with nextSerial := s.nextSerial + 1 },
      if sync then surface.cached.getD [] else []) = .ok (s', own)) :
    ∀ surface', s'.surfaces x = some surface' →
      (s.committedPending surface generation sync).merged.lists = surface'.pending.lists := by
  intro surface' hx'
  have := (takeCached_same hfold).map_eq (x := x) (g := (·.pending.lists)) fun _ => rfl
  rw [hx', hx] at this
  exact (Option.some.inj this).symm

-- The state in which the transaction is committed.
theorem committing (ha : AllLists s Φ) {sync : Bool} (generation : UInt32) {own : List TransactionEntry}
    (hx : s.surfaces x = some surface)
    (hfold : surface.pending.children.foldlM State.takeCached ({ s with nextSerial := s.nextSerial + 1 },
      if sync then surface.cached.getD [] else []) = .ok (s', own))
    (hs : s'' = s'.modifySurface x fun surface' => { surface' with
      pending := (s.committedPending surface generation sync).merged }) :
    AllLists s'' Φ ∧ ∀ entry ∈ KWin.addPending x (s.committedPending surface generation sync) own,
      (s''.surfaces entry.surface).isSome → Φ entry.surface entry.state.lists := by
  subst hs
  constructor
  case left =>
    refine (ha.collected hx hfold).1.modifySurface ?_ ?_
    exacts [fun a hxa => ⟨rfl, setPending generation hx hfold a hxa⟩, fun _ => .inl rfl]
  case right =>
    intro entry hm halive
    refine ha.addPending generation hx hfold entry hm ?_
    rw [modifySurface_surfaces] at halive
    split at halive
    case isTrue hex => rw [hex]; simpa using halive
    case isFalse => exact halive

theorem surfaceCommit (ha : AllLists s Φ) (hv : Settled s) (hs : s.surfaceCommit env x = .ok s') :
    AllLists s' Φ := by
  have ⟨surface, sync, generation, s₁, own, hx, _, _, hfold, hs⟩ := surfaceCommit_cases hs
  have ⟨hv₁, hunlinked⟩ := hv.collected hx hfold
  have he := Settled.addPending_unlinked (s.committedPending surface generation sync) hunlinked
    (by rw [(takeCached_same hfold).rest]; exact hv.lt_nextSurface hx)
  split at hs
  case isTrue =>
    rw [hs]
    refine (ha.collected hx hfold).1.setCached (ha.addPending generation hx hfold) ?_ fun _ => rfl
    exact fun a hxa => ⟨rfl, setPending generation hx hfold a hxa⟩
  case isFalse =>
    have ⟨h₂, hΦ⟩ := ha.committing generation hx hfold rfl
    refine commit h₂ (hv₁.modifySurface ?_ ?_) he hΦ hs
    exacts [fun _ => rfl, fun _ => .inl rfl]

theorem commitCached (ha : AllLists s Φ) (hv : Settled s) (hs : s.commitCached env x = .ok s') :
    AllLists s' Φ := by
  obtain ⟨surface, hx, hs⟩ := commitCached_cases hs
  rcases hs with ⟨_, rfl⟩ | ⟨entries, hc, hs⟩
  case inl => exact ha
  case inr =>
    have hca : s.cachedAt x = some entries := by simp [State.cachedAt, hx, hc]
    obtain ⟨_, hv'⟩ := hv
    refine commit (ha.modifySurface ?_ ?_) (Settled.modifySurface ⟨_, hv'⟩ ?_ ?_) (hv'.cached x entries hca)
      (fun entry hm halive => ha _ _ (.cached ?_ hca hm rfl)) hs
    · exact fun _ _ => ⟨rfl, rfl⟩
    · exact fun _ => .inr rfl
    · exact fun _ => rfl
    · exact fun _ => .inr rfl
    · rw [modifySurface_surfaces] at halive
      split at halive
      case isTrue hex => rw [hex, hx]; rfl
      case isFalse => exact halive

theorem of_eq (ha : AllLists s Φ) (hs : s'.surfaces = s.surfaces) (ht : s'.transactions = s.transactions) :
    AllLists s' Φ := by
  refine ha.of_surfaces (fun _ surface h => ⟨surface, hs ▸ h, rfl, rfl⟩)
    (fun _ _ hc => by simpa [State.cachedAt, hs] using hc)
    fun _ transaction h entry he _ => .inl ⟨transaction, ht ▸ h, entry, he, rfl, rfl⟩

theorem setDesync (ha : AllLists s Φ) (hv : Settled s) (hs : s.setDesync env e = .ok s') : AllLists s' Φ := by
  have ⟨sub, _, hs⟩ := setDesync_cases hs
  rcases hs with ⟨_, rfl⟩ | ⟨_, s₁, rfl, ⟨_, rfl⟩ | ⟨_, hs⟩⟩
  · exact ha
  · exact ha.of_eq rfl rfl
  · refine (parentDesynchronizedFrom_induct (fun s => Settled s ∧ AllLists s Φ) ?_ ⟨?_, ?_⟩ hs).2
    · exact fun _ _ _ ⟨hv, ha⟩ hs => ⟨hv.commitCached hs, ha.commitCached hv hs⟩
    · exact hv.of_surfaces rfl rfl rfl rfl rfl
    · exact ha.of_eq rfl rfl

theorem setFences (ha : AllLists s Φ) {i : Nat} {f : List Bool → List Bool} :
    AllLists (s.modifyEntry t i fun entry => { entry with fences := f entry.fences }) Φ := by
  refine ha.of_surfaces (fun _ surface hs => ⟨surface, hs, rfl, rfl⟩) (fun _ _ hc => hc)
    fun t' transaction' ht' entry' he' _ => .inl ?_
  by_cases htt : t' = t
  case neg => exact ⟨transaction', by simpa [modifyEntry, modifyEntries, htt] using ht', entry', he', rfl, rfl⟩
  case pos =>
    subst htt
    simp only [modifyEntry, modifyEntries, Function.update_self, Option.map_eq_some_iff] at ht'
    obtain ⟨transaction₀, h₀, rfl⟩ := ht'
    have hmem : (entry'.surface, entry'.state) ∈ transaction₀.entries.map fun entry => (entry.surface, entry.state) := by
      rw [← map_modify (i := i) (f := fun entry => { entry with fences := f entry.fences })]
      · exact List.mem_map_of_mem he'
      · exact fun _ => rfl
    obtain ⟨entry₀, he₀, heq⟩ := List.mem_map.mp hmem
    obtain ⟨hx, hst⟩ := Prod.mk.inj heq
    exact ⟨transaction₀, h₀, entry₀, he₀, hx, by rw [hst]⟩

theorem signalFence (ha : AllLists s Φ) (hv : Settled s) {i j : Nat} (hs : s.signalFence env t i j = .ok s') :
    AllLists s' Φ := by
  refine tryApply (setFences (i := i) (f := (·.set j false)) ha) ?_ hs
  exact hv.setFences (f := (·.set j false))

theorem clearFifoBarrier (ha : AllLists s Φ) (hv : Settled s) (hs : s.clearFifoBarrier env x = .ok s') :
    AllLists s' Φ := by
  have ⟨_, _, hs⟩ := clearFifoBarrier_cases hs
  rcases hs with ⟨_, rfl⟩ | ⟨_, hs⟩
  · exact ha
  · refine tryApplyFirst (ha.modifySurface ?_ ?_) (hv.modifySurface ?_ ?_) hs
    exacts [fun _ _ => ⟨rfl, rfl⟩, fun _ => .inl rfl, fun _ => rfl, fun _ => .inl rfl]

-- The events that make, destroy or move no object a state refers to.
theorem handle (ha : AllLists s Φ) (hv : Settled s) {event : Event} (hs : s.handle env event = .ok s')
    (he : match event with
      | .setRole .. | .attach .. | .setBarrier _ | .waitBarrier _ | .setSync _ | .setDesync _ | .commit _
      | .signalFence .. | .clearFifoBarrier _ | .nextRoleGeneration _ => True
      | _ => False) : AllLists s' Φ := by
  cases event <;> simp only [State.handle] at hs <;> try contradiction
  case setRole => exact pure_eq_ok.mp hs ▸ ha.modifySurface (fun _ _ => ⟨rfl, rfl⟩) (fun _ => .inl rfl)
  case attach | setBarrier | waitBarrier =>
    exact pure_eq_ok.mp hs ▸ ha.modifySurface (fun _ _ => ⟨rfl, rfl⟩) (fun _ => .inl rfl)
  case setSync =>
    obtain ⟨_, _, hs⟩ := bind_eq_ok.mp hs
    exact pure_eq_ok.mp hs ▸ ha.of_eq rfl rfl
  case setDesync => exact ha.setDesync hv hs
  case commit => exact ha.surfaceCommit hv hs
  case signalFence => exact ha.signalFence hv hs
  case clearFifoBarrier => exact ha.clearFifoBarrier hv hs
  case nextRoleGeneration => exact ha.nextRoleGeneration hv hs

theorem imp {Φ' : SurfaceId → SurfaceState.Lists → Prop} (ha : AllLists s Φ)
    (h : ∀ q lists, (s.surfaces q).isSome → Φ q lists → Φ' q lists) : AllLists s Φ' := by
  refine fun q state hh => h q state.lists ?_ (ha q state hh)
  cases hh
  case current hs => simp [hs]
  case pending hs => simp [hs]
  case cached hq _ _ _ => exact hq
  case queued hq _ _ _ => exact hq

theorem modifyPending {f : SurfaceState → SurfaceState} (ha : AllLists s Φ)
    (hf : ∀ surface, s.surfaces x = some surface → Φ x (f surface.pending).lists) :
    AllLists (s.modifyPending x f) Φ := by
  have halive : ∀ {q}, ((s.modifyPending x f).surfaces q).isSome → (s.surfaces q).isSome := fun {q} hq => by
    rw [State.modifyPending, modifySurface_surfaces] at hq
    split at hq
    case isTrue h => subst h; simpa using hq
    case isFalse => exact hq
  intro q state hh
  cases hh
  case current surface h =>
    rw [State.modifyPending, modifySurface_surfaces] at h
    split at h
    case isTrue hq =>
      subst hq
      obtain ⟨surface₀, h₀, rfl⟩ := Option.map_eq_some_iff.mp h
      have := ha _ _ (.current h₀)
      exact this
    case isFalse => exact ha _ _ (.current h)
  case pending surface h =>
    rw [State.modifyPending, modifySurface_surfaces] at h
    split at h
    case isTrue hq =>
      subst hq
      obtain ⟨surface₀, h₀, rfl⟩ := Option.map_eq_some_iff.mp h
      exact hf surface₀ h₀
    case isFalse => exact ha _ _ (.pending h)
  case cached y entries entry hq hy he hx =>
    refine ha _ _ (.cached (halive hq) (show s.cachedAt y = some entries from ?_) he hx)
    rw [← hy, State.modifyPending, cachedAt_modifySurface]
    split
    case isTrue h => rw [h]; rfl
    case isFalse => rfl
  case queued hq ht he hx => exact ha _ _ (.queued (halive hq) ht he hx)

-- A new surface has no children and no extensions.
theorem createSurface (ha : AllLists s Φ) (hv : Settled s) (hΦ : Φ s.nextSurface ⟨[], [], []⟩) :
    AllLists s.createSurface Φ := by
  have ⟨_, hv⟩ := hv
  have hsurf : ∀ {q surface}, s.createSurface.surfaces q = some surface →
      (q = s.nextSurface ∧ surface = {}) ∨ s.surfaces q = some surface := by
    intro q surface h
    by_cases hq : q = s.nextSurface
    case pos => exact .inl ⟨hq, by simpa [State.createSurface, hq, eq_comm] using h⟩
    case neg => exact .inr (by simpa [State.createSurface, hq] using h)
  have halive : ∀ {q}, (s.createSurface.surfaces q).isSome → q ≠ s.nextSurface → (s.surfaces q).isSome := by
    intro q hq hne
    simpa [State.createSurface, hne] using hq
  intro q state hh
  cases hh
  case current surface h =>
    rcases hsurf h with ⟨rfl, rfl⟩ | h
    · exact hΦ
    · exact ha _ _ (.current h)
  case pending surface h =>
    rcases hsurf h with ⟨rfl, rfl⟩ | h
    · exact hΦ
    · exact ha _ _ (.pending h)
  case cached y entries entry hq hy he hx =>
    have hy : s.cachedAt y = some entries := by
      obtain ⟨surface, h, hc⟩ := Option.bind_eq_some_iff.mp hy
      rcases hsurf h with ⟨_, rfl⟩ | h
      · simp at hc
      · simp [State.cachedAt, h, hc]
    have hne : q ≠ s.nextSurface := (hx ▸ (hv.cached y entries hy entry he).2).ne
    exact ha _ _ (.cached (halive hq hne) hy he hx)
  case queued t entry transaction hq ht he hx =>
    have hne : q ≠ s.nextSurface := by
      have := hv.consistent.queues.known t _ (queueView_links ht) entry.link
        (Multiset.mem_coe.mpr (List.mem_map_of_mem he))
      exact (hx ▸ this : q < s.nextSurface).ne
    exact ha _ _ (.queued (halive hq hne) ht he hx)

theorem removeSurface (ha : AllLists s Φ) : AllLists (s.removeSurface x) Φ := by
  refine ha.of_surfaces (fun q surface h => ⟨surface, ?_, rfl, rfl⟩) (fun y entries hy => ?_)
    fun t transaction ht entry he _ => .inl ⟨transaction, ht, entry, he, rfl, rfl⟩
  · by_cases hq : q = x
    case pos => simp [State.removeSurface, hq] at h
    case neg => simpa [State.removeSurface, hq] using h
  · by_cases hyx : y = x
    case pos => simp [State.cachedAt, State.removeSurface, hyx] at hy
    case neg => simpa [State.cachedAt, State.removeSurface, hyx] using hy

-- All states of a surface are changed, but for those which other surfaces have cached.
theorem patch {Φ' : SurfaceId → SurfaceState.Lists → Prop} (ha : AllLists s Φ)
    (other : ∀ q lists, q ≠ x → Φ q lists → Φ' q lists)
    (own : ∀ surface, s.surfaces x = some surface →
      Φ' x (f surface).current.lists ∧ Φ' x (f surface).pending.lists)
    (hc : ∀ surface, (f surface).cached = surface.cached)
    (amended : ∀ state : SurfaceState, Φ x state.lists → Φ' x (mutator state).lists)
    (elsewhere : (s.surfaces x).isSome → ∀ y ≠ x, ∀ entries, s.cachedAt y = some entries →
      ∀ entry ∈ entries, entry.surface = x → Φ' x entry.state.lists) :
    AllLists ((s.modifySurface x f).amendAll x mutator) Φ' := by
  have hsurf : ∀ {q surface'}, ((s.modifySurface x f).amendAll x mutator).surfaces q = some surface' →
      ∃ surface, s.surfaces q = some surface ∧
        surface'.current = (if q = x then (f surface).current else surface.current) ∧
        surface'.pending = if q = x then (f surface).pending else surface.pending := by
    intro q surface' h
    simp only [State.amendAll, modifySurface_surfaces, if_true] at h
    split at h
    case isTrue hq =>
      subst hq
      rw [Option.map_map] at h
      obtain ⟨surface, hs, rfl⟩ := Option.map_eq_some_iff.mp h
      exact ⟨surface, hs, by simp, by simp⟩
    case isFalse hq => exact ⟨surface', h, by simp [hq], by simp [hq]⟩
  have halive : ∀ {q}, (((s.modifySurface x f).amendAll x mutator).surfaces q).isSome → (s.surfaces q).isSome := by
    intro q hq
    obtain ⟨surface', h⟩ := Option.isSome_iff_exists.mp hq
    obtain ⟨surface, hs, _⟩ := hsurf h
    simp [hs]
  have hamend : ∀ {q entry₀}, (entry₀ : TransactionEntry).surface = q → Φ q entry₀.state.lists →
      Φ' q (entry₀.amend x mutator).state.lists := by
    rintro q entry₀ rfl hΦ
    unfold TransactionEntry.amend
    split
    case isTrue hx => rw [hx] at hΦ ⊢; exact amended _ hΦ
    case isFalse hx => exact other _ _ hx hΦ
  intro q state hh
  cases hh
  case current surface' h =>
    obtain ⟨surface, hs, hl, _⟩ := hsurf h
    rw [hl]
    split
    case isTrue hq => subst hq; exact (own surface hs).1
    case isFalse hq => exact other _ _ hq (ha _ _ (.current hs))
  case pending surface' h =>
    obtain ⟨surface, hs, _, hl⟩ := hsurf h
    rw [hl]
    split
    case isTrue hq => subst hq; exact (own surface hs).2
    case isFalse hq => exact other _ _ hq (ha _ _ (.pending hs))
  case cached y entries entry hq hy' he hx =>
    have hy : (if y = x then (s.cachedAt y).map (·.map (·.amend x mutator)) else s.cachedAt y) = some entries := by
      rw [← hy']
      simp only [State.amendAll, State.cachedAt, modifySurface_surfaces, if_true]
      split
      case isTrue h =>
        subst h
        cases s.surfaces y <;> simp [hc]
      case isFalse => rfl
    split at hy
    case isTrue hyx =>
      obtain ⟨entries₀, h₀, rfl⟩ := Option.map_eq_some_iff.mp hy
      obtain ⟨entry₀, he₀, rfl⟩ := List.mem_map.mp he
      rw [TransactionEntry.amend_surface] at hx
      exact hamend hx (ha _ _ (.cached (halive hq) h₀ he₀ hx))
    case isFalse hyx =>
      by_cases hqx : q = x
      case pos => subst hqx; exact elsewhere (halive hq) y hyx entries hy entry he hx
      case neg => exact other _ _ hqx (ha _ _ (.cached (halive hq) hy he hx))
  case queued t entry transaction hq ht he hx =>
    simp only [State.amendAll, State.modifySurface, Option.map_eq_some_iff] at ht
    obtain ⟨transaction₀, h₀, rfl⟩ := ht
    obtain ⟨entry₀, he₀, rfl⟩ := List.mem_map.mp he
    rw [TransactionEntry.amend_surface] at hx
    exact hamend hx (ha _ _ (.queued (halive hq) h₀ he₀ hx))

end AllLists

end KWin
