import PlasmaModel.Wayland.Requests

namespace KWin

namespace Surface

def eraseMapped (surface : Surface) : Surface :=
  { surface with mapped := false }

def eraseBarrier (surface : Surface) : Surface :=
  { surface with current := { surface.current with fifoBarrier := false } }

-- Forgets what the application of a state changes.
def eraseCurrent (surface : Surface) : Surface :=
  { surface with current := {}, mapped := false }

end Surface

namespace State

open Fallible

variable {s s' s'' : State} {x : SurfaceId} {e : SubSurfaceId} {t : TransactionId} {i : Nat}
variable {surface : Surface} {sub : SubSurface} {transaction : Transaction} {entry : TransactionEntry}
variable {f g : Surface → Surface}

theorem surface_eq_ok : s.surface x = .ok surface ↔ s.surfaces x = some surface := by
  cases h : s.surfaces x <;> simp [State.surface, h]

theorem subSurface_eq_ok : s.subSurface e = .ok sub ↔ s.subSurfaces e = some sub := by
  cases h : s.subSurfaces e <;> simp [State.subSurface, h]

theorem transaction_eq_ok : s.transaction t = .ok transaction ↔ s.transactions t = some transaction := by
  cases h : s.transactions t <;> simp [State.transaction, h]

theorem entry_eq_ok : s.entry t i = .ok entry ↔
    ∃ transaction, s.transactions t = some transaction ∧ transaction.entries[i]? = some entry := by
  rw [State.entry, bind_eq_ok]
  simp only [transaction_eq_ok]
  refine exists_congr fun transaction => and_congr_right fun _ => ?_
  cases h : transaction.entries[i]? <;> simp

theorem setSurface_eq_modifySurface (h : s.surfaces x = some surface) (hf : f surface = surface') :
    s.setSurface x surface' = s.modifySurface x f := by
  simp [setSurface, modifySurface, h, hf]

theorem modifySurface_surfaces (y : SurfaceId) :
    (s.modifySurface x f).surfaces y = if y = x then (s.surfaces x).map f else s.surfaces y := by
  by_cases h : y = x <;> simp [modifySurface, h]

theorem modifySurface_of_none (h : s.surfaces x = none) : s.modifySurface x f = s := by
  rw [modifySurface, h, Option.map_none, ← h, Function.update_eq_self]

-- Besides the log, only the surfaces differ, and only in what `f` forgets.
structure SameBut (f : Surface → Surface) (s s' : State) : Prop where
  surfaces : ∀ x, (s'.surfaces x).map f = (s.surfaces x).map f
  rest     : s' = { s with surfaces := s'.surfaces, log := s'.log }

namespace SameBut

theorem refl : SameBut f s s :=
  ⟨fun _ => rfl, rfl⟩

theorem trans (h₁ : SameBut f s s') (h₂ : SameBut f s' s'') : SameBut f s s'' where
  surfaces x := (h₂.surfaces x).trans (h₁.surfaces x)
  rest := by rw [h₂.rest, h₁.rest]

theorem mono (h : SameBut f s s') (hg : ∀ a, g (f a) = g a) : SameBut g s s' where
  surfaces x := by
    have hm : ∀ o : Option Surface, (o.map f).map g = o.map g := fun o => by
      cases o <;> simp [hg]
    rw [← hm, h.surfaces, hm]
  rest := h.rest

theorem map_eq {α : Type} {g : Surface → α} (h : SameBut f s s') (hg : ∀ a, g (f a) = g a) :
    (s'.surfaces x).map g = (s.surfaces x).map g := by
  have hm : ∀ o : Option Surface, (o.map f).map g = o.map g := fun o => by
    cases o <;> simp [hg]
  rw [← hm, h.surfaces, hm]

theorem isSome_eq (h : SameBut f s s') : (s'.surfaces x).isSome = (s.surfaces x).isSome := by
  have := congrArg Option.isSome (h.surfaces x)
  simpa using this

theorem modifySurface {g : Surface → Surface} (hg : ∀ a, f (g a) = f a) :
    SameBut f s (s.modifySurface x g) where
  surfaces y := by
    rw [modifySurface_surfaces]
    split
    case isTrue h => subst h; cases s.surfaces y <;> simp [hg]
    case isFalse => rfl
  rest := rfl

theorem setSurface {surface' : Surface} (h : s.surfaces x = some surface) (hs : f surface' = f surface) :
    SameBut f s (s.setSurface x surface') where
  surfaces y := by
    by_cases hy : y = x
    case pos => subst hy; simp [State.setSurface, h, hs]
    case neg => simp [State.setSurface, hy]
  rest := rfl

end SameBut

theorem updateEffectiveMappedFrom_same {n : Nat} (h : updateEffectiveMappedFrom n s x = .ok s') :
    SameBut Surface.eraseMapped s s' := by
  induction n generalizing s s' x
  case zero => contradiction
  case succ n ih =>
    simp only [updateEffectiveMappedFrom, bind_eq_ok, surface_eq_ok] at h
    obtain ⟨surface, hs, mapped, _, h⟩ := h
    split at h
    case isTrue => exact pure_eq_ok.mp h ▸ .refl
    case isFalse =>
      refine foldlM_preserves (SameBut Surface.eraseMapped s) (fun e _ s₁ s₂ h₁ h₂ => ?_) ?_ h
      case refine_2 => exact SameBut.setSurface hs rfl
      obtain ⟨sub, _, h₂⟩ := bind_eq_ok.mp h₂
      exact h₁.trans (ih h₂)

theorem clearBarriersOfUnmapped_same (h : s.clearBarriersOfUnmapped x = .ok s') :
    SameBut Surface.eraseBarrier s s' := by
  simp only [clearBarriersOfUnmapped, bind_eq_ok, surface_eq_ok] at h
  obtain ⟨surface, hs, h⟩ := h
  split at h
  case isTrue => exact pure_eq_ok.mp h ▸ .refl
  case isFalse =>
    refine foldlM_preserves (SameBut Surface.eraseBarrier s) (fun e _ s₁ s₂ h₁ h₂ => ?_) ?_ h
    case refine_2 => exact SameBut.setSurface hs rfl
    simp only [clearChildBarrier, bind_eq_ok, surface_eq_ok] at h₂
    obtain ⟨sub, _, child, hc, h₂⟩ := h₂
    obtain rfl := pure_eq_ok.mp h₂
    exact h₁.trans (.setSurface hc rfl)

theorem parentApplyState_same {l : List SubSurfaceId} (h : l.foldlM parentApplyState s = .ok s') : s' = s := by
  refine foldlM_preserves (· = s) (fun e _ s₁ s₂ h₁ h₂ => ?_) rfl h
  obtain ⟨sub, _, h₂⟩ := bind_eq_ok.mp h₂
  exact pure_eq_ok.mp h₂ ▸ h₁

theorem updateVisibility_same (h : s.updateVisibility x b = .ok s') : SameBut Surface.eraseMapped s s' := by
  unfold updateVisibility at h
  split at h
  · exact updateEffectiveMappedFrom_same h
  · exact pure_eq_ok.mp h ▸ .refl

-- The three steps of `applyState`: the merge, the visibility, and the barriers.
theorem applyState_cases {next : SurfaceState} (h : s.applyState x next = .ok s') :
    ∃ surface s₁, s.surfaces x = some surface ∧
      (s.setSurface x { surface with current := next.mergeInto surface.current }).updateVisibility x
        (next.committedBuffer && surface.current.buffer.isSome ≠ next.buffer.isSome) = .ok s₁ ∧
      s₁.clearBarriersOfUnmapped x = .ok s' := by
  simp only [applyState, bind_eq_ok, surface_eq_ok] at h
  obtain ⟨surface, hs, s₁, h₁, s₂, h₂, h₃⟩ := h
  obtain rfl := parentApplyState_same h₃
  exact ⟨surface, s₁, hs, h₁, h₂⟩

theorem applyState_same {next : SurfaceState} (h : s.applyState x next = .ok s') :
    SameBut Surface.eraseCurrent s s' := by
  have ⟨surface, s₁, hs, h₁, h₂⟩ := applyState_cases h
  have h₀ : SameBut Surface.eraseCurrent s
      (s.setSurface x { surface with current := next.mergeInto surface.current }) := .setSurface hs rfl
  exact (h₀.trans ((updateVisibility_same h₁).mono fun _ => rfl)).trans
    ((clearBarriersOfUnmapped_same h₂).mono fun _ => rfl)

theorem applyEntry_same (h : applyEntry t s entry = .ok s') : SameBut Surface.eraseCurrent s s' := by
  unfold applyEntry at h
  split at h
  case isTrue => exact pure_eq_ok.mp h ▸ .refl
  case isFalse =>
    obtain ⟨s₁, h₁, h⟩ := bind_eq_ok.mp h
    obtain rfl := pure_eq_ok.mp h
    have h := applyState_same h₁
    exact ⟨h.surfaces, by rw [h.rest]⟩

theorem applyEntries_same {entries : List TransactionEntry} (h : entries.foldlM (applyEntry t) s = .ok s') :
    SameBut Surface.eraseCurrent s s' :=
  foldlM_preserves (SameBut Surface.eraseCurrent s) (fun _ _ _ _ h₁ h₂ => h₁.trans (applyEntry_same h₂))
    .refl h

theorem applyStates_cases {env : Environment} (h : s.applyStates env t = .ok s') :
    ∃ transaction s₁, s.transactions t = some transaction ∧ t ∉ s.applying ∧
      (env.sort s transaction.entries).foldlM (applyEntry t) { s with applying := t :: s.applying } = .ok s₁ ∧
      s' = s₁.setEntries t ((env.sort s transaction.entries).map s₁.mergedEntry) := by
  simp only [applyStates, bind_eq_ok, transaction_eq_ok] at h
  obtain ⟨transaction, ht, h⟩ := h
  split at h
  case isTrue => contradiction
  case isFalse hn =>
    obtain ⟨s₁, h₁, h⟩ := bind_eq_ok.mp h
    exact ⟨transaction, s₁, ht, hn, h₁, (pure_eq_ok.mp h).symm⟩

-- A transaction is ready only if none of its entries waits for another transaction.
theorem not_blocks_cases (h : s.blocks entry = .ok false) : entry.previousTransaction = none := by
  unfold blocks at h
  split at h
  case isTrue => cases pure_eq_ok.mp h
  case isFalse hp => simpa using hp

theorem anyM_eq_ok_false {p : TransactionEntry → Except Fault Bool} {l : List TransactionEntry} :
    l.anyM p = .ok false ↔ ∀ a ∈ l, p a = .ok false := by
  induction l
  case nil => simp [List.anyM, pure, Except.pure]
  case cons a l ih =>
    rw [List.anyM, bind_eq_ok]
    constructor
    case mp =>
      rintro ⟨b, h₁, h₂⟩
      cases b
      case true => cases pure_eq_ok.mp h₂
      case false => simpa using ⟨h₁, ih.mp h₂⟩
    case mpr =>
      intro h
      exact ⟨false, h a (by simp), ih.mpr fun b hb => h b (by simp [hb])⟩

theorem isReady_cases (h : s.isReady t = .ok true) : ∃ transaction, s.transactions t = some transaction ∧
    ∀ entry ∈ transaction.entries, s.blocks entry = .ok false := by
  simp only [isReady, bind_eq_ok, transaction_eq_ok, pure_eq_ok, Bool.not_eq_true'] at h
  obtain ⟨transaction, ht, _, h, rfl⟩ := h
  exact ⟨transaction, ht, anyM_eq_ok_false.mp h⟩

end State
end KWin

-- What the requests do, step by step.
namespace KWin.State

open Fallible

variable {env : Environment} {s s' : State} {x y parent : SurfaceId} {e : SubSurfaceId} {surface : Surface}
variable {own : List TransactionEntry} {t : TransactionId}

theorem tryApplyFirst_cases (h : s.tryApplyFirst env x = .ok s') :
    ∃ surface, s.surfaces x = some surface ∧
      ((surface.firstTransaction = none ∧ s' = s) ∨
        ∃ t, surface.firstTransaction = some t ∧ s.tryApply env t = .ok s') := by
  simp only [tryApplyFirst, bind_eq_ok, surface_eq_ok] at h
  obtain ⟨surface, hs, h⟩ := h
  refine ⟨surface, hs, ?_⟩
  cases hf : surface.firstTransaction <;> simp only [hf] at h
  case none => exact .inl ⟨rfl, (pure_eq_ok.mp h).symm⟩
  case some t => exact .inr ⟨t, rfl, h⟩

-- A request for a subsurface is rejected because of the role that the surface has or because the new
-- subsurface would be its own ancestor.
theorem getSubsurface_cases (h : s.getSubsurface env x parent = .ok s') :
    ∃ surface parentSurface, s.surfaces x = some surface ∧ s.surfaces parent = some parentSurface ∧
      ((surface.role.isSome ∧ surface.role ≠ some .subSurface ∧ s' = s) ∨
        ∃ s₁, (surface.role.isSome → surface.role = some .subSurface) ∧
          (if surface.role.isNone then s.setSurfaceRole x .subSurface else s).nextRoleGeneration env x = .ok s₁ ∧
          ((x = parent ∧ s' = s₁) ∨ (x ≠ parent ∧ ∃ main, s₁.parentMainSurface parentSurface = .ok main ∧
            ((main = some x ∧ s' = s₁) ∨ (main ≠ some x ∧ s₁.createSubSurface x parent = .ok s'))))) := by
  simp only [getSubsurface, bind_eq_ok, surface_eq_ok] at h
  obtain ⟨surface, hs, parentSurface, hp, h⟩ := h
  refine ⟨surface, parentSurface, hs, hp, ?_⟩
  split at h
  case isTrue hr => exact .inl ⟨by simp_all, by simp_all, (pure_eq_ok.mp h).symm⟩
  case isFalse hr =>
    obtain ⟨s₁, h₁, h⟩ := bind_eq_ok.mp h
    refine .inr ⟨s₁, by simpa using hr, h₁, ?_⟩
    split at h
    case isTrue hx => exact .inl ⟨hx, (pure_eq_ok.mp h).symm⟩
    case isFalse hx =>
      obtain ⟨main, hm, h⟩ := bind_eq_ok.mp h
      refine .inr ⟨hx, main, hm, ?_⟩
      split at h
      case isTrue hmain => exact .inl ⟨hmain, (pure_eq_ok.mp h).symm⟩
      case isFalse hmain => exact .inr ⟨hmain, h⟩

theorem releaseSurface_cases (h : s.releaseSurface env x = .ok s') :
    (s.surfaces x = none ∧ s' = s) ∨ ((s.surfaces x).isSome ∧
      (s.modifySurface x fun surface => { surface with handle := none, cached := none }).nextRoleGeneration env x =
        .ok s') := by
  unfold releaseSurface at h
  split at h
  case h_1 hs => exact .inl ⟨hs, (pure_eq_ok.mp h).symm⟩
  case h_2 surface hs =>
    rw [setSurface_eq_modifySurface
      (f := fun surface => { surface with handle := none, cached := none }) hs rfl] at h
    exact .inr ⟨by simp [hs], h⟩

theorem destroySubSurface_cases (h : s.destroySubSurface env e = .ok s') :
    ∃ sub s₁ s₂, s.subSurfaces e = some sub ∧ s.removeFromParent e sub.parent = .ok s₁ ∧
      s₁.releaseSurface env sub.surface = .ok s₂ ∧
      s' = { s₂ with subSurfaces := Function.update s₂.subSurfaces e none } := by
  simp only [destroySubSurface, bind_eq_ok, subSurface_eq_ok] at h
  obtain ⟨sub, hsub, s₁, h₁, s₂, h₂, h⟩ := h
  exact ⟨sub, s₁, s₂, hsub, h₁, h₂, (pure_eq_ok.mp h).symm⟩

theorem removeFromParent_cases (h : s.removeFromParent e parent = .ok s') :
    (s.surfaces parent = none ∧ s' = s) ∨ ((s.surfaces parent).isSome ∧ s.removeChild parent e = .ok s') := by
  unfold removeFromParent at h
  split at h
  case isTrue hp => exact .inr ⟨hp, h⟩
  case isFalse hp => exact .inl ⟨by simpa using hp, (pure_eq_ok.mp h).symm⟩

theorem takeCached_cases {s₁ : State} {own₁ : List TransactionEntry} (h : takeCached (s, own) e = .ok (s₁, own₁)) :
    ∃ sub child, s.subSurfaces e = some sub ∧ s.surfaces sub.surface = some child ∧
      s₁ = s.modifySurface sub.surface (fun surface => { surface with cached := none }) ∧
      own₁ = own ++ child.cached.getD [] := by
  simp only [takeCached, bind_eq_ok, subSurface_eq_ok, surface_eq_ok] at h
  obtain ⟨sub, hsub, child, hc, h⟩ := h
  refine ⟨sub, child, hsub, hc, ?_⟩
  cases hca : child.cached <;> simp only [hca] at h <;> obtain ⟨rfl, rfl⟩ := Prod.mk.inj (pure_eq_ok.mp h)
  case none =>
    refine ⟨?_, by simp⟩
    rw [modifySurface, hc, Option.map_some, ← hca, ← hc, Function.update_eq_self]
  case some entries => exact ⟨setSurface_eq_modifySurface hc rfl, rfl⟩

theorem takeCached_same {children : List SubSurfaceId} {s₁ : State} {own₁ : List TransactionEntry}
    (h : children.foldlM takeCached (s, own) = .ok (s₁, own₁)) :
    SameBut (fun surface => { surface with cached := none }) s s₁ := by
  refine foldlM_preserves (fun p : State × List TransactionEntry =>
    SameBut (fun surface => { surface with cached := none }) s p.1) ?_ .refl h
  rintro e _ ⟨s₂, own₂⟩ ⟨s₃, own₃⟩ hp ht
  obtain ⟨_, _, _, _, rfl, _⟩ := takeCached_cases ht
  exact hp.trans (.modifySurface fun _ => rfl)

-- A wl_surface.commit collects what its children have cached, and then caches or commits all of it.
theorem surfaceCommit_cases (h : s.surfaceCommit env x = .ok s') :
    ∃ surface sync generation s₁ own, s.surfaces x = some surface ∧ s.surfaceSynchronized surface = .ok sync ∧
      s.mainSurfaceRoleGeneration x = .ok generation ∧
      (s.committedPending surface generation sync).children.foldlM takeCached
        ({ s with nextSerial := s.nextSerial + 1 }, if sync then surface.cached.getD [] else []) = .ok (s₁, own) ∧
      (if sync then
        s' = s₁.modifySurface x fun surface' => { surface' with
          pending := (s.committedPending surface generation sync).merged
          cached := some (addPending x (s.committedPending surface generation sync) own) }
      else
        (s₁.modifySurface x fun surface' => { surface' with
          pending := (s.committedPending surface generation sync).merged }).commit env
          (addPending x (s.committedPending surface generation sync) own) = .ok s') := by
  simp only [surfaceCommit, bind_eq_ok, surface_eq_ok] at h
  obtain ⟨surface, hs, sync, hsync, generation, hg, ⟨s₁, own⟩, hfold, h⟩ := h
  refine ⟨surface, sync, generation, s₁, own, hs, hsync, hg, hfold, ?_⟩
  cases sync <;> simp only [Bool.false_eq_true, if_true, if_false] at h ⊢
  case false => exact h
  case true =>
    rw [← pure_eq_ok.mp h]
    simp only [modifySurface, Function.update_self, Function.update_idem, Option.map_map]
    rfl

theorem commitCached_cases (h : s.commitCached env x = .ok s') :
    ∃ surface, s.surfaces x = some surface ∧ ((surface.cached = none ∧ s' = s) ∨
      ∃ entries, surface.cached = some entries ∧
        (s.modifySurface x fun surface => { surface with cached := none }).commit env entries = .ok s') := by
  simp only [commitCached, bind_eq_ok, surface_eq_ok] at h
  obtain ⟨surface, hs, h⟩ := h
  refine ⟨surface, hs, ?_⟩
  cases hc : surface.cached <;> simp only [hc] at h
  case none => exact .inl ⟨rfl, (pure_eq_ok.mp h).symm⟩
  case some entries =>
    rw [setSurface_eq_modifySurface (f := fun surface => { surface with cached := none }) hs rfl] at h
    exact .inr ⟨entries, rfl, h⟩

-- What every commit of a cached transaction preserves, the whole walk down the tree does.
theorem parentDesynchronizedFrom_induct {n : Nat} (P : State → Prop)
    (step : ∀ x s s', P s → s.commitCached env x = .ok s' → P s') (hp : P s)
    (h : parentDesynchronizedFrom env n s e = .ok s') : P s' := by
  induction n generalizing s s' e
  case zero => contradiction
  case succ n ih =>
    simp only [parentDesynchronizedFrom, bind_eq_ok, subSurface_eq_ok] at h
    obtain ⟨sub, hsub, h⟩ := h
    split at h
    case isTrue => exact pure_eq_ok.mp h ▸ hp
    case isFalse =>
      simp only [bind_eq_ok] at h
      obtain ⟨s₁, h₁, _, _, s₂, h₂, _, _, h₃⟩ := h
      have hp₂ := foldlM_preserves P (fun _ _ _ _ hp h => ih hp h) (step _ _ _ hp h₁) h₂
      exact foldlM_preserves P (fun _ _ _ _ hp h => ih hp h) hp₂ h₃

theorem setDesync_cases (h : s.setDesync env e = .ok s') : ∃ sub, s.subSurfaces e = some sub ∧
    ((sub.mode = .desynchronized ∧ s' = s) ∨ (sub.mode = .synchronized ∧ ∃ s₁, s₁ = { s with
      subSurfaces := Function.update s.subSurfaces e (some { sub with mode := .desynchronized }) } ∧
      ((s₁.isSynchronized e = .ok true ∧ s' = s₁) ∨
        (s₁.isSynchronized e = .ok false ∧ s₁.parentDesynchronized env e = .ok s')))) := by
  simp only [setDesync, bind_eq_ok, subSurface_eq_ok] at h
  obtain ⟨sub, hsub, h⟩ := h
  refine ⟨sub, hsub, ?_⟩
  split at h
  case isTrue hm => exact .inl ⟨hm, (pure_eq_ok.mp h).symm⟩
  case isFalse hm =>
    obtain ⟨sync, hsync, h⟩ := bind_eq_ok.mp h
    refine .inr ⟨by cases hmode : sub.mode <;> simp_all, _, rfl, ?_⟩
    cases sync
    case false => exact .inr ⟨hsync, by simpa using h⟩
    case true =>
      rw [if_pos rfl] at h
      exact .inl ⟨hsync, (pure_eq_ok.mp h).symm⟩

theorem clearFifoBarrier_cases (h : s.clearFifoBarrier env x = .ok s') : ∃ surface, s.surfaces x = some surface ∧
    ((surface.current.fifoBarrier = false ∧ s' = s) ∨ (surface.current.fifoBarrier = true ∧
      (s.modifySurface x fun surface => { surface with current := { surface.current with fifoBarrier := false } }
        ).tryApplyFirst env x = .ok s')) := by
  simp only [clearFifoBarrier, bind_eq_ok, surface_eq_ok] at h
  obtain ⟨surface, hs, h⟩ := h
  refine ⟨surface, hs, ?_⟩
  split at h
  case isTrue hb =>
    rw [setSurface_eq_modifySurface
      (f := fun surface => { surface with current := { surface.current with fifoBarrier := false } }) hs rfl] at h
    exact .inr ⟨hb, h⟩
  case isFalse hb => exact .inl ⟨by simpa using hb, (pure_eq_ok.mp h).symm⟩

end KWin.State
