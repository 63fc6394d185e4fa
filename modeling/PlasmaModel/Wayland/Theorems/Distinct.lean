import Mathlib.Data.List.Dedup
import PlasmaModel.Wayland.Theorems.Children

namespace KWin

open State Fallible Fifo

-- The surfaces which have a state in the cache of a surface.
def State.cachedSurfaces (s : State) (x : SurfaceId) : List SurfaceId :=
  ((s.cachedAt x).getD []).map (·.surface)

-- The surfaces of the children of which a commit takes the caches.
def State.childSurfaces (s : State) (children : List SubSurfaceId) : List SurfaceId :=
  children.filterMap fun e => (s.subSurfaces e).map (·.surface)

-- The surfaces whose caches become one when a surface is committed.
def State.sources (s : State) (x : SurfaceId) : List SurfaceId :=
  (s.surfaces x).elim [] fun surface =>
    (if (s.surfaceSynchronized surface).toOption = some true then [x] else []) ++
      (s.childSurfaces surface.pending.children).dedup

-- The caches which become one do not have a surface in common.
def State.distinct (s : State) : Event → Bool
  | .commit x => decide ((s.sources x).flatMap s.cachedSurfaces).Nodup
  | .commitTransaction states => decide (states.map (·.1)).Nodup
  | _ => true

structure Distinct (s : State) : Prop where
  queued : ∀ t transaction, s.transactions t = some transaction → ∀ entry ∈ transaction.entries,
             entry.previousTransaction ≠ some t
  cached : ∀ x, (s.cachedSurfaces x).Nodup

-- No transaction waits for another one than before, and no cache has states of other surfaces.
structure Loosened (s s' : State) : Prop where
  queued : ∀ t transaction', s'.transactions t = some transaction' → ∀ entry' ∈ transaction'.entries, ∀ a,
             entry'.previousTransaction = some a → ∃ transaction, s.transactions t = some transaction ∧
               ∃ entry ∈ transaction.entries, entry.previousTransaction = some a
  cached : ∀ x, s'.cachedSurfaces x = s.cachedSurfaces x ∨ s'.cachedSurfaces x = []

variable {env : Environment} {s s' s'' : State} {x y parent : SurfaceId} {e : SubSurfaceId} {t : TransactionId}
variable {f : Surface → Surface} {mutator : SurfaceState → SurfaceState} {entry : TransactionEntry}
variable {entries own : List TransactionEntry} {c c' : Config} {surface : Surface}

theorem previous_of_mem_clearPrevious (h : entry ∈ clearPrevious t entries) :
    entry ∈ entries ∨ entry.previousTransaction = none := by
  induction entries
  case nil => exact .inl h
  case cons a entries ih =>
    unfold clearPrevious at h
    split at h
    case isTrue =>
      rcases List.mem_cons.mp h with rfl | h
      · exact .inr rfl
      · exact .inl (List.mem_cons_of_mem _ h)
    case isFalse =>
      rcases List.mem_cons.mp h with rfl | h
      · exact .inl List.mem_cons_self
      · exact (ih h).imp_left (List.mem_cons_of_mem _)

theorem cachedSurfaces_eq (h : s'.cachedAt x = s.cachedAt x) : s'.cachedSurfaces x = s.cachedSurfaces x := by
  rw [cachedSurfaces, h, cachedSurfaces]

theorem cachedSurfaces_modifySurface (hc : ∀ surface, (f surface).cached = surface.cached ∨ (f surface).cached = none) :
    (s.modifySurface x f).cachedSurfaces y = s.cachedSurfaces y ∨ (s.modifySurface x f).cachedSurfaces y = [] := by
  rw [cachedSurfaces, cachedAt_modifySurface]
  split
  case isFalse => exact .inl rfl
  case isTrue hyx =>
    subst hyx
    cases hs : s.surfaces y
    case none => exact .inr rfl
    case some surface =>
      cases hc surface with
      | inl hc => exact .inl (by simp [cachedSurfaces, cachedAt, hs, hc])
      | inr hc => exact .inr (by simp [hc])

namespace Loosened

theorem refl : Loosened s s :=
  ⟨fun _ transaction h entry he _ hp => ⟨transaction, h, entry, he, hp⟩, fun _ => .inl rfl⟩

theorem trans (h : Loosened s s') (h' : Loosened s' s'') : Loosened s s'' where
  queued t transaction'' ht entry'' he a hp :=
    have ⟨transaction', ht, entry', he, hp⟩ := h'.queued t transaction'' ht entry'' he a hp
    h.queued t transaction' ht entry' he a hp
  cached x := by
    rcases h'.cached x with h₁ | h₁
    · rw [h₁]
      exact h.cached x
    · exact .inr h₁

theorem of_transactions (ht : s'.transactions = s.transactions)
    (hc : ∀ x, s'.cachedSurfaces x = s.cachedSurfaces x ∨ s'.cachedSurfaces x = []) : Loosened s s' where
  queued _ transaction h entry he _ hp := ⟨transaction, ht ▸ h, entry, he, hp⟩
  cached := hc

theorem of_eq (ht : s'.transactions = s.transactions) (hs : s'.surfaces = s.surfaces) : Loosened s s' :=
  of_transactions ht fun _ => .inl (cachedSurfaces_eq (by rw [cachedAt, hs, cachedAt]))

theorem modifySurface (hc : ∀ surface, (f surface).cached = surface.cached ∨ (f surface).cached = none) :
    Loosened s (s.modifySurface x f) :=
  of_transactions rfl fun _ => cachedSurfaces_modifySurface hc

theorem modifyPending {f : SurfaceState → SurfaceState} : Loosened s (s.modifyPending x f) :=
  modifySurface fun _ => .inl rfl

-- Every entry comes from an entry which waits for the same transaction, or it waits for none.
theorem of_entries (hc : ∀ x, s'.cachedSurfaces x = s.cachedSurfaces x)
    (ht : ∀ t transaction', s'.transactions t = some transaction' → ∃ transaction, s.transactions t = some transaction ∧
      ∀ entry' ∈ transaction'.entries, entry'.previousTransaction = none ∨
        ∃ entry ∈ transaction.entries, entry.previousTransaction = entry'.previousTransaction) : Loosened s s' where
  queued t transaction' h entry' he a hp := by
    have ⟨transaction, h₀, hentries⟩ := ht t transaction' h
    rcases hentries entry' he with hn | ⟨entry, he₀, hp₀⟩
    · simp [hn] at hp
    · exact ⟨transaction, h₀, entry, he₀, hp₀.trans hp⟩
  cached x := .inl (hc x)

theorem setEntries {transaction : Transaction} (h : s.transactions t = some transaction)
    (he : ∀ entry' ∈ entries, entry'.previousTransaction = none ∨
      ∃ entry ∈ transaction.entries, entry.previousTransaction = entry'.previousTransaction) :
    Loosened s (s.setEntries t entries) := by
  refine of_entries (fun _ => rfl) fun t' transaction' h' => ?_
  by_cases htt : t' = t
  case pos =>
    subst htt
    obtain rfl : ⟨entries⟩ = transaction' := by simpa [State.setEntries] using h'
    exact ⟨transaction, h, he⟩
  case neg =>
    refine ⟨transaction', by simpa [State.setEntries, htt] using h', fun entry' he' => .inr ⟨entry', he', rfl⟩⟩

theorem applyStates (h : s.applyStates env t = .ok s') : Loosened s s' := by
  have ⟨transaction, s₁, htr, _, h₁, h₂⟩ := applyStates_cases h
  have hsame := applyEntries_same h₁
  have hcached : ∀ y, s₁.cachedAt y = s.cachedAt y := fun y =>
    Valid.cachedAt_of_static (s := { s with applying := t :: s.applying }) (.of_same hsame fun _ => rfl)
  have htr₁ : s₁.transactions = s.transactions := by rw [hsame.rest]
  have hl : Loosened s s₁ := of_transactions htr₁ fun y => .inl (cachedSurfaces_eq (hcached y))
  rw [h₂]
  refine hl.trans (setEntries (htr₁ ▸ htr) fun entry' he' => .inr ?_)
  obtain ⟨entry, he, rfl⟩ := List.mem_map.mp he'
  refine ⟨entry, (env.sort_perm s _).mem_iff.mp he, ?_⟩
  unfold mergedEntry
  split <;> rfl

theorem unlink (h : s.unlink t entry = .ok s') : Loosened s s' := by
  have hd : Loosened s (s.dequeue t entry) := by
    refine modifySurface fun surface => .inl ?_
    split <;> rfl
  rcases unlink_cases h with ⟨_, rfl⟩ | ⟨next, transaction, _, htr, rfl⟩
  case inl => exact hd
  case inr =>
    refine hd.trans (setEntries (show (s.dequeue t entry).transactions next = some transaction from htr) ?_)
    exact fun entry' he' => (previous_of_mem_clearPrevious he').elim (fun he => .inr ⟨entry', he, rfl⟩) .inl

theorem delete : Loosened s (s.delete t) := by
  refine of_entries (fun _ => rfl) fun t' transaction' ht' => ⟨transaction', ?_, fun entry' he' => .inr ⟨entry', he', rfl⟩⟩
  by_cases htt : t' = t
  case pos => simp [State.delete, htt] at ht'
  case neg => simpa [State.delete, htt] using ht'

theorem step (h : Step env c c') : Loosened c.state c'.state := by
  cases h
  case applyStates h => exact applyStates h
  case unlink h => exact unlink h
  case delete => exact delete

theorem steps (h : Steps env c c') : Loosened c.state c'.state := by
  induction h
  case refl => exact refl
  case tail hs ih => exact ih.trans (step hs)

theorem tryApply (hv : Settled s) (h : s.tryApply env t = .ok s') : Loosened s s' := by
  have ⟨_, hv⟩ := hv
  have ⟨_, hn, _⟩ := hv.tryApply h
  exact steps hn.steps

theorem tryApplyFirst (hv : Settled s) (h : s.tryApplyFirst env x = .ok s') : Loosened s s' := by
  have ⟨_, _, h⟩ := tryApplyFirst_cases h
  rcases h with ⟨_, rfl⟩ | ⟨t, _, h⟩
  · exact refl
  · exact tryApply hv h

theorem nextRoleGeneration (hv : Settled s) (h : s.nextRoleGeneration env x = .ok s') : Loosened s s' := by
  refine .trans (.modifySurface ?_) (tryApplyFirst (hv.modifySurface ?_ ?_) h)
  exacts [fun _ => .inl rfl, fun _ => rfl, fun _ => .inl rfl]

theorem amend (hv : Settled s) (h : s.amend x mutator = .ok s') : Loosened s s' := by
  have ⟨_, hv⟩ := hv
  rw [(hv.amend h).1]
  refine of_entries (fun y => ?_) fun t transaction' ht => ?_
  · rw [cachedSurfaces, cachedAt_amendAll, cachedSurfaces]
    split
    case isFalse => rfl
    case isTrue hyx =>
      subst hyx
      cases s.cachedAt y <;> simp
  · obtain ⟨transaction, h₀, rfl⟩ := Option.map_eq_some_iff.mp ht
    refine ⟨transaction, h₀, fun entry' he' => .inr ?_⟩
    obtain ⟨entry, he, rfl⟩ := List.mem_map.mp he'
    refine ⟨entry, he, ?_⟩
    unfold TransactionEntry.amend
    split <;> rfl

theorem createSurface : Loosened s s.createSurface := by
  refine of_transactions rfl fun y => ?_
  by_cases hy : y = s.nextSurface
  case pos => exact .inr (by simp [cachedSurfaces, cachedAt, State.createSurface, hy])
  case neg => exact .inl (by simp [cachedSurfaces, cachedAt, State.createSurface, hy])

theorem removeSurface : Loosened s (s.removeSurface x) := by
  refine of_transactions rfl fun y => ?_
  by_cases hy : y = x
  case pos => exact .inr (by simp [cachedSurfaces, cachedAt, State.removeSurface, hy])
  case neg => exact .inl (by simp [cachedSurfaces, cachedAt, State.removeSurface, hy])

theorem createSubSurface (hv : Settled s) (h : s.createSubSurface x parent = .ok s') : Loosened s s' := by
  have h₁ : Loosened s { s with
      subSurfaces := Function.update s.subSurfaces s.nextSubSurface (some { surface := x, parent })
      nextSubSurface := s.nextSubSurface + 1 } := of_eq rfl rfl
  refine h₁.trans (.trans (.trans (.modifySurface ?_) (.modifySurface ?_)) (amend ?_ h))
  case refine_3 =>
    refine .modifySurface (.modifySurface (hv.of_surfaces rfl rfl rfl rfl rfl) ?_ ?_) ?_ ?_
    exacts [fun _ => rfl, fun _ => .inl rfl, fun _ => rfl, fun _ => .inl rfl]
  exacts [fun _ => .inl rfl, fun _ => .inl rfl]

theorem getSubsurface (hv : Settled s) (h : s.getSubsurface env x parent = .ok s') : Loosened s s' := by
  have ⟨surface, _, _, _, h⟩ := getSubsurface_cases h
  rcases h with ⟨_, _, rfl⟩ | ⟨s₁, _, h₁, h⟩
  case inl => exact refl
  case inr =>
    have hl₁ : Settled s₁ ∧ Loosened s s₁ := by
      split at h₁
      case isTrue =>
        have hv₀ : Settled (s.setSurfaceRole x .subSurface) := by
          refine hv.modifySurface ?_ ?_
          exacts [fun _ => rfl, fun _ => .inl rfl]
        refine ⟨hv₀.nextRoleGeneration h₁, .trans (.modifySurface ?_) (nextRoleGeneration hv₀ h₁)⟩
        exact fun _ => .inl rfl
      case isFalse => exact ⟨hv.nextRoleGeneration h₁, nextRoleGeneration hv h₁⟩
    rcases h with ⟨_, rfl⟩ | ⟨_, main, _, ⟨_, rfl⟩ | ⟨_, hc⟩⟩
    · exact hl₁.2
    · exact hl₁.2
    · exact hl₁.2.trans (createSubSurface hl₁.1 hc)

theorem removeFromParent (hv : Settled s) (h : s.removeFromParent e parent = .ok s') : Loosened s s' := by
  rcases removeFromParent_cases h with ⟨_, rfl⟩ | ⟨_, h⟩
  · exact refl
  · refine .trans (.modifySurface ?_) (amend (hv.modifySurface ?_ ?_) h)
    exacts [fun _ => .inl rfl, fun _ => rfl, fun _ => .inl rfl]

theorem releaseSurface (hv : Settled s) (h : s.releaseSurface env x = .ok s') : Loosened s s' := by
  rcases releaseSurface_cases h with ⟨_, rfl⟩ | ⟨_, h⟩
  · exact refl
  · refine .trans (.modifySurface ?_) (nextRoleGeneration (hv.modifySurface ?_ ?_) h)
    exacts [fun _ => .inr rfl, fun _ => rfl, fun _ => .inr rfl]

theorem destroySubSurface (hv : Settled s) (h : s.destroySubSurface env e = .ok s') : Loosened s s' := by
  have ⟨sub, s₁, s₂, _, h₁, h₂, heq⟩ := destroySubSurface_cases h
  rw [heq]
  exact ((removeFromParent hv h₁).trans (releaseSurface (hv.removeFromParent h₁) h₂)).trans (of_eq rfl rfl)

theorem destroySurface (hv : Settled s) (h : s.destroySurface env x = .ok s') : Loosened s s' := by
  obtain ⟨s₁, h₁, h⟩ := bind_eq_ok.mp h
  have hv₀ : Settled (s.modifySurface x fun surface => { surface with tearingDown := true }) := by
    refine hv.modifySurface ?_ ?_
    exacts [fun _ => rfl, fun _ => .inl rfl]
  have hl₁ : Loosened s s₁ := by
    refine .trans (.modifySurface ?_) (tryApplyFirst hv₀ h₁)
    exact fun _ => .inl rfl
  refine (foldlM_preserves (fun s₂ => Settled s₂ ∧ Loosened s s₂) (fun e' _ s₂ s₃ h₂ h₃ => ?_)
    ⟨(hv₀.tryApplyFirst h₁).removeSurface, hl₁.trans removeSurface⟩ h).2
  split at h₃
  case h_1 => exact pure_eq_ok.mp h₃ ▸ h₂
  case h_2 =>
    split at h₃
    case isTrue => exact ⟨h₂.1.destroySubSurface h₃, h₂.2.trans (destroySubSurface h₂.1 h₃)⟩
    case isFalse => exact pure_eq_ok.mp h₃ ▸ h₂

theorem setFences {i : Nat} {f : List Bool → List Bool} :
    Loosened s (s.modifyEntry t i fun entry => { entry with fences := f entry.fences }) := by
  refine of_entries (fun _ => rfl) fun t' transaction' ht' => ?_
  by_cases htt : t' = t
  case neg =>
    refine ⟨transaction', by simpa [modifyEntry, modifyEntries, htt] using ht', fun entry' he' => .inr ⟨entry', he', rfl⟩⟩
  case pos =>
    subst htt
    obtain ⟨transaction, h₀, rfl⟩ : ∃ transaction, s.transactions t' = some transaction ∧
        ⟨transaction.entries.modify i fun entry => { entry with fences := f entry.fences }⟩ = transaction' := by
      simpa [modifyEntry, modifyEntries] using ht'
    refine ⟨transaction, h₀, fun entry' he' => .inr ?_⟩
    have hm : entry'.previousTransaction ∈ (transaction.entries.modify i fun entry =>
        { entry with fences := f entry.fences }).map (·.previousTransaction) := List.mem_map_of_mem he'
    have heq := map_modify (l := transaction.entries) (i := i)
      (f := fun entry : TransactionEntry => { entry with fences := f entry.fences }) (g := (·.previousTransaction)) fun _ => rfl
    rw [heq] at hm
    exact List.mem_map.mp hm

theorem signalFence {i j : Nat} (hv : Settled s) (h : s.signalFence env t i j = .ok s') : Loosened s s' :=
  .trans (setFences (f := (·.set j false))) (tryApply (hv.setFences (f := (·.set j false))) h)

theorem clearFifoBarrier (hv : Settled s) (h : s.clearFifoBarrier env x = .ok s') : Loosened s s' := by
  have ⟨_, _, h⟩ := clearFifoBarrier_cases h
  rcases h with ⟨_, rfl⟩ | ⟨_, h⟩
  · exact refl
  · refine .trans (.modifySurface ?_) (tryApplyFirst (hv.modifySurface ?_ ?_) h)
    exacts [fun _ => .inl rfl, fun _ => rfl, fun _ => .inl rfl]

theorem addExtension : Loosened s (s.addExtension x) :=
  have h₁ : Loosened s { s with
      extensions := Function.update s.extensions s.nextExtension (some x)
      nextExtension := s.nextExtension + 1 } := of_eq rfl rfl
  h₁.trans modifyPending

theorem removeExtension (hv : Settled s) {k : ExtensionId} (h : s.removeExtension k x = .ok s') : Loosened s s' := by
  have h₁ : Loosened s { s with extensions := Function.update s.extensions k none } := of_eq rfl rfl
  refine h₁.trans (.trans modifyPending (amend (.modifyPending ?_) h))
  exact hv.of_surfaces rfl rfl rfl rfl rfl

theorem handle (hv : Settled s) {event : Event} (h : s.handle env event = .ok s')
    (he : match event with
      | .commit _ | .setDesync _ | .commitTransaction _ => False
      | _ => True) : Loosened s s' := by
  cases event <;> simp only [State.handle] at h he
  case createSurface => exact pure_eq_ok.mp h ▸ createSurface
  case setRole => exact pure_eq_ok.mp h ▸ modifySurface fun _ => .inl rfl
  case attach | setBarrier | waitBarrier => exact pure_eq_ok.mp h ▸ modifyPending
  case addExtension => exact pure_eq_ok.mp h ▸ addExtension
  case removeExtension k =>
    cases hx : s.extensions k <;> simp only [hx, Option.elim] at h
    · exact pure_eq_ok.mp h ▸ refl
    · exact removeExtension hv h
  case getSubsurface => exact getSubsurface hv h
  case placeAbove | placeBelow =>
    simp only [placeChild, bind_eq_ok] at h
    obtain ⟨_, _, _, _, h⟩ := h
    exact pure_eq_ok.mp h ▸ modifyPending
  case setSync =>
    obtain ⟨_, _, h⟩ := bind_eq_ok.mp h
    exact pure_eq_ok.mp h ▸ of_eq rfl rfl
  case destroySubSurface => exact destroySubSurface hv h
  case destroySurface => exact destroySurface hv h
  case signalFence => exact signalFence hv h
  case clearFifoBarrier => exact clearFifoBarrier hv h
  case nextRoleGeneration => exact nextRoleGeneration hv h

end Loosened

namespace Distinct

theorem init : Distinct {} where
  queued _ _ h := nomatch h
  cached _ := .nil

theorem loosen (h : Distinct s) (hl : Loosened s s') : Distinct s' where
  queued t transaction' ht entry' he hp := by
    have ⟨transaction, h₀, entry, he₀, hp₀⟩ := hl.queued t transaction' ht entry' he t hp
    exact h.queued t transaction h₀ entry he₀ hp₀
  cached x := by
    rcases hl.cached x with heq | heq
    · exact heq ▸ h.cached x
    · exact heq ▸ .nil

-- An entry waits for the last transaction of its surface, which is another one.
theorem commit (h : Distinct s) (hv : Settled s)
    (he : ∀ entry ∈ entries, entry.Unlinked ∧ entry.surface < s.nextSurface)
    (hd : (entries.map (·.surface)).Nodup) (hs : s.commit env entries = .ok s') : Distinct s' := by
  have ⟨queue, hv⟩ := hv
  have ⟨s₁, transaction, _, hl, _, _, hn, _⟩ := hv.commit he hs
  refine loosen (s := s₁) ?_ (Loosened.steps hn.steps)
  constructor
  case cached =>
    intro y
    exact cachedSurfaces_eq hl.cachedAt_eq ▸ h.cached y
  case queued =>
    intro t transaction' ht entry' hm hp
    by_cases htt : t = s.nextTransaction
    case pos =>
      subst htt
      obtain rfl := Option.some.inj (ht.symm.trans hl.found)
      have ⟨j, hj⟩ := List.mem_iff_getElem?.mp hm
      have hprev := hl.previous j entry' hj
      rw [hp] at hprev
      split at hprev
      case isTrue => cases hprev
      case isFalse =>
        -- The surface is not in an entry before.
        have hnot : entry'.surface ∉ (entries.take j).map (·.surface) := by
          have ⟨entry, hj₀, hx⟩ := hl.entry_at hj
          rw [← hx]
          intro hmem
          have hsplit : (entries.map (·.surface)).take j ++ (entries.map (·.surface)).drop j = entries.map (·.surface) :=
            List.take_append_drop ..
          have hdis := List.disjoint_of_nodup_append (hsplit.symm ▸ hd)
          refine hdis (List.map_take ▸ hmem) ?_
          refine List.mem_of_getElem? (i := 0) ?_
          simp [hj₀]
        rw [committedQueue, if_neg fun hc => hnot hc.2] at hprev
        exact hv.consistent.queues.fresh_not_mem (List.mem_of_getLast? hprev.symm)
    case neg =>
      have := hl.others t htt
      rw [ht] at this
      obtain ⟨transaction₀, h₀, heq⟩ := Option.map_eq_some_iff.mp this.symm
      have hmem : entry'.eraseNext ∈ transaction₀.entries.map (·.eraseNext) := heq ▸ List.mem_map_of_mem hm
      obtain ⟨entry₀, he₀, heq⟩ := List.mem_map.mp hmem
      have hpp := congrArg TransactionEntry.previousTransaction heq
      exact h.queued t transaction₀ h₀ entry₀ he₀ (hpp.trans hp)

theorem setCached (h : Distinct s) (hd : (entries.map (·.surface)).Nodup)
    (hc : ∀ surface, (f surface).cached = some entries) : Distinct (s.modifySurface x f) where
  queued := h.queued
  cached y := by
    rw [cachedSurfaces, cachedAt_modifySurface]
    split
    case isFalse => exact h.cached y
    case isTrue =>
      cases s.surfaces x
      case none => exact .nil
      case some surface => simpa [hc] using hd

end Distinct

section

variable {α β : Type} [DecidableEq α] {a : α} {l : List α} {g : α → List β}

theorem dedup_cons_perm : (a :: l).dedup.Perm (a :: l.dedup.filter (· ≠ a)) := by
  by_cases h : a ∈ l
  case pos =>
    rw [List.dedup_cons_of_mem h]
    have heq := l.nodup_dedup.erase_eq_filter a
    have hfilter : l.dedup.filter (· ≠ a) = l.dedup.erase a := by
      rw [heq]
      exact List.filter_congr fun b _ => by rw [Bool.eq_iff_iff]; simp
    rw [hfilter]
    exact List.perm_cons_erase (List.mem_dedup.mpr h)
  case neg =>
    have hfilter : l.dedup.filter (· ≠ a) = l.dedup :=
      List.filter_eq_self.mpr fun b hb => by
        have hne : b ≠ a := fun heq => h (List.mem_dedup.mp (heq ▸ hb))
        simpa using hne
    rw [List.dedup_cons_of_notMem h, hfilter]

theorem flatMap_update : l.flatMap (Function.update g a []) = (l.filter (· ≠ a)).flatMap g := by
  induction l
  case nil => rfl
  case cons b l ih =>
    by_cases hb : b = a
    case pos => simp [hb, ih]
    case neg => simp [hb, ih]

-- Whatever is taken first, and at most once, is taken.
theorem flatMap_dedup_cons :
    ((a :: l).dedup.flatMap g).Perm (g a ++ l.dedup.flatMap (Function.update g a [])) := by
  rw [flatMap_update]
  exact dedup_cons_perm.flatMap_right g

end

-- What a request has collected so far and what it is still to collect do not have a surface in common.
theorem Distinct.collected (hd : Distinct s) {sync : Bool} (hx : s.surfaces x = some surface)
    (hsync : s.surfaceSynchronized surface = .ok sync) (hp : s.distinct (.commit x))
    (hfold : surface.pending.children.foldlM takeCached ({ s with nextSerial := s.nextSerial + 1 },
      if sync then surface.cached.getD [] else []) = .ok (s', own)) :
    Distinct s' ∧ (own.map (·.surface)).Nodup := by
  have hstart : ((if sync then surface.cached.getD [] else []).map (·.surface) ++
      (s.childSurfaces surface.pending.children).dedup.flatMap s.cachedSurfaces).Nodup := by
    have hp : ((s.sources x).flatMap s.cachedSurfaces).Nodup := of_decide_eq_true hp
    rw [sources, hx] at hp
    cases sync
    case false => simpa [hsync, Except.toOption] using hp
    case true => simpa [hsync, Except.toOption, cachedSurfaces, cachedAt, hx] using hp
  have hall := foldlM_induct (fun children (p : State × List TransactionEntry) =>
      Loosened s p.1 ∧ p.1.subSurfaces = s.subSurfaces ∧
        (p.2.map (·.surface) ++ (s.childSurfaces children).dedup.flatMap p.1.cachedSurfaces).Nodup)
    ?_ ⟨.of_eq rfl rfl, rfl, hstart⟩ hfold
  case refine_2 => exact ⟨hd.loosen hall.1, by simpa [childSurfaces] using hall.2.2⟩
  case refine_1 =>
    rintro e children ⟨s₁, own₁⟩ ⟨s₂, own₂⟩ ⟨hl, hsub, hn⟩ ht
    obtain ⟨sub, child, he, hc, rfl, rfl⟩ := takeCached_cases ht
    have hcached : (s₁.modifySurface sub.surface fun surface => { surface with cached := none }).cachedSurfaces =
        Function.update s₁.cachedSurfaces sub.surface [] := by
      funext y
      rw [cachedSurfaces, cachedAt_modifySurface, Function.update_apply]
      split <;> simp [cachedSurfaces, hc]
    have hown : (own₁ ++ child.cached.getD []).map (·.surface) = own₁.map (·.surface) ++ s₁.cachedSurfaces sub.surface := by
      simp [cachedSurfaces, cachedAt, hc]
    have hcons : s.childSurfaces (e :: children) = sub.surface :: s.childSurfaces children := by
      simp [childSurfaces, ← hsub, he]
    refine ⟨hl.trans (.modifySurface ?_), hsub, ?_⟩
    case refine_1 => exact fun _ => .inr rfl
    case refine_2 =>
      dsimp only
      rw [hcached, hown, List.append_assoc]
      rw [hcons] at hn
      exact ((flatMap_dedup_cons.append_left _).nodup_iff).mp hn

theorem addPending_surfaces (x : SurfaceId) (pending : SurfaceState) (own : List TransactionEntry) :
    (addPending x pending own).map (·.surface) =
      if x ∈ own.map (·.surface) then own.map (·.surface) else own.map (·.surface) ++ [x] := by
  induction own
  case nil => rfl
  case cons entry own ih =>
    unfold addPending
    by_cases hx : entry.surface = x
    case pos => simp [hx]
    case neg =>
      rw [if_neg hx, List.map_cons, ih, List.map_cons]
      have hne : x ≠ entry.surface := fun heq => hx heq.symm
      by_cases hmem : x ∈ own.map (·.surface)
      case pos => rw [if_pos hmem, if_pos (List.mem_cons_of_mem _ hmem)]
      case neg => rw [if_neg hmem, if_neg (List.not_mem_cons_of_ne_of_not_mem hne hmem), List.cons_append]

theorem addPending_nodup {pending : SurfaceState} (h : (own.map (·.surface)).Nodup) :
    ((addPending x pending own).map (·.surface)).Nodup := by
  rw [addPending_surfaces]
  split
  case isTrue => exact h
  case isFalse hx => exact h.append (List.nodup_singleton x) (List.disjoint_singleton.mpr hx)

namespace Distinct

theorem surfaceCommit (h : Distinct s) (hv : Settled s) (hp : s.distinct (.commit x))
    (hs : s.surfaceCommit env x = .ok s') : Distinct s' := by
  have ⟨surface, sync, generation, s₁, own, hx, hsync, _, hfold, hs⟩ := surfaceCommit_cases hs
  have ⟨h₁, hn⟩ := h.collected hx hsync hp hfold
  have ⟨hv₁, hown⟩ := hv.collected hx hfold
  have hlt : x < s₁.nextSurface := by
    rw [(takeCached_same hfold).rest]
    exact hv.lt_nextSurface hx
  have he := Settled.addPending_unlinked (s.committedPending surface generation sync) hown hlt
  split at hs
  case isTrue =>
    rw [hs]
    exact h₁.setCached (addPending_nodup hn) fun _ => rfl
  case isFalse =>
    refine commit (h₁.loosen (.modifySurface ?_)) (hv₁.modifySurface ?_ ?_) he (addPending_nodup hn) hs
    exacts [fun _ => .inl rfl, fun _ => rfl, fun _ => .inl rfl]

theorem commitCached (h : Distinct s) (hv : Settled s) (hs : s.commitCached env x = .ok s') : Distinct s' := by
  obtain ⟨surface, hx, hs⟩ := commitCached_cases hs
  rcases hs with ⟨_, rfl⟩ | ⟨entries, hc, hs⟩
  case inl => exact h
  case inr =>
    have hcached : s.cachedAt x = some entries := by simp [cachedAt, hx, hc]
    have hn : (entries.map (·.surface)).Nodup := by simpa [cachedSurfaces, hcached] using h.cached x
    obtain ⟨_, hq⟩ := hv
    refine commit (h.loosen (.modifySurface ?_)) (Settled.modifySurface ⟨_, hq⟩ ?_ ?_)
      (hq.cached x entries hcached) hn hs
    exacts [fun _ => .inr rfl, fun _ => rfl, fun _ => .inr rfl]

theorem setDesync (h : Distinct s) (hv : Settled s) (hs : s.setDesync env e = .ok s') : Distinct s' := by
  have ⟨sub, _, hs⟩ := setDesync_cases hs
  have h₁ : Distinct { s with
      subSurfaces := Function.update s.subSurfaces e (some { sub with mode := .desynchronized }) } :=
    h.loosen (.of_eq rfl rfl)
  rcases hs with ⟨_, rfl⟩ | ⟨_, s₁, rfl, ⟨_, rfl⟩ | ⟨_, hs⟩⟩
  · exact h
  · exact h₁
  · refine (parentDesynchronizedFrom_induct (fun s => Settled s ∧ Distinct s)
      (fun _ _ _ h hs => ⟨h.1.commitCached hs, h.2.commitCached h.1 hs⟩) ⟨?_, h₁⟩ hs).2
    exact hv.of_surfaces rfl rfl rfl rfl rfl

theorem handle (h : Distinct s) (hv : Settled s) {event : Event} (he : s.enabled event) (hp : s.distinct event)
    (hs : s.handle env event = .ok s') : Distinct s' := by
  cases event
  case commit => exact h.surfaceCommit hv hp hs
  case setDesync => exact h.setDesync hv hs
  case commitTransaction states =>
    refine h.commit hv (fun entry hm => ?_) ?_ hs
    · obtain ⟨p, hmp, rfl⟩ := List.mem_map.mp hm
      exact ⟨⟨rfl, rfl, rfl⟩, by simpa using List.all_eq_true.mp he p hmp⟩
    · have hp : (states.map (·.1)).Nodup := of_decide_eq_true hp
      simpa [Function.comp_def] using hp
  all_goals exact h.loosen (Loosened.handle hv hs trivial)

theorem reachable {P : State → Event → Prop} (hP : ∀ s event, P s event → s.distinct event)
    (h : State.Reachable env P s) : Distinct s := by
  induction h
  case init => exact init
  case step hr he hp hs ih => exact ih.handle (.reachable hr) he (hP _ _ hp) hs

end Distinct

end KWin
