import PlasmaModel.Lib.Forest
import PlasmaModel.Wayland.Theorems.Valid

namespace KWin

open Fallible State Forest

-- What `subSurface()->parentSurface()` returns.
def State.parentSurface (s : State) (x : SurfaceId) : Option SurfaceId :=
  (s.surfaces x).bind fun surface => surface.handle.bind fun e => (s.subSurfaces e).bind fun sub =>
    if (s.surfaces sub.parent).isSome then some sub.parent else none

-- The subsurfaces and their surfaces are the same, and so are the extensions.
structure SameTree (s s' : State) : Prop where
  handles     : ∀ x, (s'.surfaces x).map (·.handle) = (s.surfaces x).map (·.handle)
  subSurfaces : ∀ e, (s'.subSurfaces e).map (fun sub => (sub.surface, sub.parent)) =
                  (s.subSurfaces e).map fun sub => (sub.surface, sub.parent)
  next        : s'.nextSubSurface = s.nextSubSurface
  nextSurface : s'.nextSurface = s.nextSurface
  extensions  : s'.extensions = s.extensions ∧ s'.nextExtension = s.nextExtension

-- The surfaces in `gone` have been destroyed, but their subsurfaces may still be there.
structure Subsurfaces (gone : SurfaceId → Prop) (s : State) : Prop where
  handle  : ∀ x surface e, s.surfaces x = some surface → surface.handle = some e →
              ∃ sub, s.subSurfaces e = some sub ∧ sub.surface = x
  sub     : ∀ e sub, s.subSurfaces e = some sub → ¬gone sub.surface →
              ∃ surface, s.surfaces sub.surface = some surface ∧ surface.handle = some e
  fresh   : ∀ e sub, s.subSurfaces e = some sub → e < s.nextSubSurface ∧ sub.parent < s.nextSurface
  acyclic : Acyclic s.parentSurface

variable {env : Environment} {s s' s'' : State} {x y p : SurfaceId} {e : SubSurfaceId} {t : TransactionId}
variable {surface : Surface} {sub : SubSurface} {f : Surface → Surface} {mutator : SurfaceState → SurfaceState}
variable {gone : SurfaceId → Prop} {n : Nat} {r : Option SurfaceId} {entries : List TransactionEntry}

theorem State.parentSurface_eq_some : s.parentSurface x = some p ↔ ∃ surface e sub, s.surfaces x = some surface ∧
    surface.handle = some e ∧ s.subSurfaces e = some sub ∧ sub.parent = p ∧ (s.surfaces p).isSome := by
  simp only [State.parentSurface, Option.bind_eq_some_iff, Option.ite_none_right_eq_some, Option.some.injEq]
  constructor
  · rintro ⟨surface, hs, e, he, sub, hsub, hp, rfl⟩
    exact ⟨surface, e, sub, hs, he, hsub, rfl, hp⟩
  · rintro ⟨surface, e, sub, hs, he, hsub, rfl, hp⟩
    exact ⟨surface, hs, e, he, sub, hsub, hp, rfl⟩

-- The events that neither make nor destroy an object.
def Event.Quiet : Event → Prop
  | .createSurface | .getSubsurface .. | .destroySubSurface _ | .destroySurface _ | .addExtension _
  | .removeExtension _ => False
  | _ => True

namespace SameTree

theorem refl : SameTree s s :=
  ⟨fun _ => rfl, fun _ => rfl, rfl, rfl, rfl, rfl⟩

theorem trans (h₁ : SameTree s s') (h₂ : SameTree s' s'') : SameTree s s'' where
  handles x     := (h₂.handles x).trans (h₁.handles x)
  subSurfaces e := (h₂.subSurfaces e).trans (h₁.subSurfaces e)
  next          := h₂.next.trans h₁.next
  nextSurface   := h₂.nextSurface.trans h₁.nextSurface
  extensions    := ⟨h₂.extensions.1.trans h₁.extensions.1, h₂.extensions.2.trans h₁.extensions.2⟩

theorem of_static (h : Static s s') : SameTree s s' where
  handles x     := h.map_eq fun _ => rfl
  subSurfaces e := by rw [h.subSurfaces]
  next          := h.nextSubSurface
  nextSurface   := h.nextSurface
  extensions    := ⟨h.extensions, h.nextExtension⟩

theorem of_surfaces (hs : s'.surfaces = s.surfaces) (hsub : s'.subSurfaces = s.subSurfaces)
    (hn : s'.nextSubSurface = s.nextSubSurface) (hns : s'.nextSurface = s.nextSurface)
    (he : s'.extensions = s.extensions) (hne : s'.nextExtension = s.nextExtension) : SameTree s s' where
  handles x     := by rw [hs]
  subSurfaces e := by rw [hsub]
  next          := hn
  nextSurface   := hns
  extensions    := ⟨he, hne⟩

theorem modifySurface (hf : ∀ surface, (f surface).handle = surface.handle) : SameTree s (s.modifySurface x f) where
  handles y := by
    rw [modifySurface_surfaces]
    split
    case isTrue h => subst h; cases s.surfaces y <;> simp [hf]
    case isFalse => rfl
  subSurfaces _ := rfl
  next          := rfl
  nextSurface   := rfl
  extensions    := ⟨rfl, rfl⟩

theorem exists_surface (h : SameTree s s') (hs : s.surfaces x = some surface) :
    ∃ surface', s'.surfaces x = some surface' ∧ surface'.handle = surface.handle := by
  have := h.handles x
  rw [hs] at this
  simpa using this

theorem exists_sub (h : SameTree s s') (hs : s.subSurfaces e = some sub) :
    ∃ sub', s'.subSurfaces e = some sub' ∧ sub'.surface = sub.surface ∧ sub'.parent = sub.parent := by
  have := h.subSurfaces e
  rw [hs] at this
  simpa using this

theorem symm (h : SameTree s s') : SameTree s' s where
  handles x     := (h.handles x).symm
  subSurfaces e := (h.subSurfaces e).symm
  next          := h.next.symm
  nextSurface   := h.nextSurface.symm
  extensions    := ⟨h.extensions.1.symm, h.extensions.2.symm⟩

theorem isSome_eq (h : SameTree s s') : (s'.surfaces x).isSome = (s.surfaces x).isSome := by
  simpa using congrArg Option.isSome (h.handles x)

theorem parentSurface_imp (h : SameTree s s') (hp : s.parentSurface x = some p) : s'.parentSurface x = some p := by
  obtain ⟨surface, e, sub, hs, he, hsub, rfl, hp⟩ := parentSurface_eq_some.mp hp
  have ⟨surface', hs', hh⟩ := h.exists_surface hs
  have ⟨sub', hsub', _, hsp⟩ := h.exists_sub hsub
  exact parentSurface_eq_some.mpr ⟨surface', e, sub', hs', hh.trans he, hsub', hsp, h.isSome_eq ▸ hp⟩

theorem parentSurface_eq (h : SameTree s s') : s'.parentSurface = s.parentSurface := by
  funext x
  refine Option.ext fun p => ⟨?_, ?_⟩
  · exact h.symm.parentSurface_imp
  · exact h.parentSurface_imp

-- Nothing in the queues or the caches belongs to the tree.

theorem tryApply (h : Valid s queue) (ht : s.tryApply env t = .ok s') : SameTree s s' :=
  have ⟨_, hn, _⟩ := h.tryApply ht
  of_static hn.steps.static

theorem tryApplyFirst (h : Settled s) (ht : s.tryApplyFirst env x = .ok s') : SameTree s s' := by
  have ⟨_, _, ht⟩ := tryApplyFirst_cases ht
  rcases ht with ⟨_, rfl⟩ | ⟨t, _, ht⟩
  · exact .refl
  · have ⟨_, h⟩ := h
    exact tryApply h ht

theorem nextRoleGeneration (h : Settled s) (hn : s.nextRoleGeneration env x = .ok s') : SameTree s s' := by
  refine .trans (.modifySurface ?_) (tryApplyFirst (h.modifySurface ?_ ?_) hn)
  exacts [fun _ => rfl, fun _ => rfl, fun _ => .inl rfl]

theorem amend (h : Settled s) (ha : s.amend x mutator = .ok s') : SameTree s s' := by
  have ⟨_, h⟩ := h
  rw [(h.amend ha).1]
  have h : SameTree s (s.modifySurface x fun surface =>
    { surface with cached := surface.cached.map (·.map (·.amend x mutator)) }) := .modifySurface fun _ => rfl
  exact ⟨h.handles, h.subSurfaces, h.next, h.nextSurface, h.extensions⟩

theorem linking {queue : SurfaceId → List TransactionId} {transaction : Transaction}
    (hl : Linking s queue entries entries.length s' transaction) : SameTree s s' := by
  have hr := hl.rest
  exact ⟨fun x => hl.map_eq fun _ => rfl, fun e => by rw [hr], by rw [hr], by rw [hr], by rw [hr], by rw [hr]⟩

theorem commit (h : Settled s) (he : ∀ entry ∈ entries, entry.Unlinked ∧ entry.surface < s.nextSurface)
    (hs : s.commit env entries = .ok s') : SameTree s s' := by
  have ⟨_, h⟩ := h
  have ⟨s₁, _, _, hl, _, _, hn, _⟩ := h.commit he hs
  exact (linking hl).trans (of_static hn.steps.static)

theorem takeCached {children : List SubSurfaceId} {own own' : List TransactionEntry} {serial : Nat}
    (h : children.foldlM State.takeCached ({ s with nextSerial := serial }, own) = .ok (s', own')) : SameTree s s' := by
  have hsame := takeCached_same h
  exact ⟨fun y => hsame.map_eq fun _ => rfl, fun e => by rw [hsame.rest], by rw [hsame.rest], by rw [hsame.rest],
    by rw [hsame.rest], by rw [hsame.rest]⟩

theorem surfaceCommit (h : Settled s) (hs : s.surfaceCommit env x = .ok s') : SameTree s s' := by
  have ⟨surface, sync, generation, s₁, own, hx, _, _, hfold, hs⟩ := surfaceCommit_cases hs
  have ⟨h₁, hown⟩ := h.collected hx hfold
  have ht : SameTree s s₁ := takeCached hfold
  have he := Settled.addPending_unlinked (s.committedPending surface generation sync) hown
    (ht.nextSurface ▸ h.lt_nextSurface hx)
  split at hs
  case isTrue =>
    rw [hs]
    exact ht.trans (.modifySurface fun _ => rfl)
  case isFalse =>
    refine (ht.trans (.modifySurface ?_)).trans (commit (h₁.modifySurface ?_ ?_) he hs)
    exacts [fun _ => rfl, fun _ => rfl, fun _ => .inl rfl]

theorem commitCached (h : Settled s) (hs : s.commitCached env x = .ok s') : SameTree s s' := by
  have ⟨surface, hx, hs⟩ := commitCached_cases hs
  rcases hs with ⟨_, rfl⟩ | ⟨entries, hc, hs⟩
  case inl => exact .refl
  case inr =>
    have ⟨_, hv⟩ := h
    refine .trans (.modifySurface ?_) (commit (h.modifySurface ?_ ?_) ?_ hs)
    exacts [fun _ => rfl, fun _ => rfl, fun _ => .inr rfl,
      hv.cached x entries (by simp [State.cachedAt, hx, hc])]

theorem setMode {mode : Mode} (hsub : s.subSurfaces e = some sub) : SameTree s { s with
    subSurfaces := Function.update s.subSurfaces e (some { sub with mode }) } where
  handles _ := rfl
  subSurfaces e' := by
    by_cases he : e' = e
    case pos => subst he; simp [hsub]
    case neg => simp [he]
  next := rfl
  nextSurface := rfl
  extensions := ⟨rfl, rfl⟩

theorem setDesync (h : Settled s) (hs : s.setDesync env e = .ok s') : SameTree s s' := by
  have ⟨sub, hsub, hs⟩ := setDesync_cases hs
  rcases hs with ⟨_, rfl⟩ | ⟨_, s₁, rfl, ⟨_, rfl⟩ | ⟨_, hs⟩⟩
  · exact .refl
  · exact setMode hsub
  · refine (parentDesynchronizedFrom_induct (fun s' => Settled s' ∧ SameTree s s') ?_ ⟨?_, setMode hsub⟩ hs).2
    · exact fun _ _ _ ⟨h, ht⟩ hs => ⟨h.commitCached hs, ht.trans (commitCached h hs)⟩
    · exact h.of_surfaces rfl rfl rfl rfl rfl

theorem removeFromParent (h : Settled s) (hr : s.removeFromParent e y = .ok s') : SameTree s s' := by
  rcases removeFromParent_cases hr with ⟨_, rfl⟩ | ⟨_, hr⟩
  · exact .refl
  · refine .trans (.modifySurface ?_) (amend (h.modifySurface ?_ ?_) hr)
    exacts [fun _ => rfl, fun _ => rfl, fun _ => .inl rfl]

theorem modifyPending {f : SurfaceState → SurfaceState} : SameTree s (s.modifyPending x f) :=
  .modifySurface fun _ => rfl

-- Most events change neither the tree nor the extensions.
theorem handle (h : Settled s) {event : Event} (he : s.enabled event) (hs : s.handle env event = .ok s')
    (hq : event.Quiet) : SameTree s s' := by
  cases event <;> simp only [State.handle] at hs <;> try contradiction
  case setRole => exact pure_eq_ok.mp hs ▸ .modifySurface fun _ => rfl
  case attach | setBarrier | waitBarrier => exact pure_eq_ok.mp hs ▸ .modifyPending
  case placeAbove | placeBelow =>
    simp only [placeChild, bind_eq_ok] at hs
    obtain ⟨_, _, _, _, hs⟩ := hs
    exact pure_eq_ok.mp hs ▸ .modifyPending
  case setSync e =>
    obtain ⟨sub, hsub, hs⟩ := bind_eq_ok.mp hs
    exact pure_eq_ok.mp hs ▸ setMode (subSurface_eq_ok.mp hsub)
  case setDesync => exact setDesync h hs
  case commit => exact surfaceCommit h hs
  case signalFence t i j =>
    obtain ⟨_, hv⟩ := h.setFences (t := t) (i := i) (f := (·.set j false))
    refine .trans ?_ (tryApply hv hs)
    exact of_surfaces rfl rfl rfl rfl rfl rfl
  case clearFifoBarrier =>
    obtain ⟨_, _, hs⟩ := clearFifoBarrier_cases hs
    rcases hs with ⟨_, rfl⟩ | ⟨_, hs⟩
    · exact .refl
    · refine .trans (.modifySurface ?_) (tryApplyFirst (h.modifySurface ?_ ?_) hs)
      exacts [fun _ => rfl, fun _ => rfl, fun _ => .inl rfl]
  case nextRoleGeneration => exact nextRoleGeneration h hs
  case commitTransaction states =>
    refine commit h (fun entry hm => ?_) hs
    obtain ⟨p, hp, rfl⟩ := List.mem_map.mp hm
    exact ⟨⟨rfl, rfl, rfl⟩, by simpa using List.all_eq_true.mp he p hp⟩

end SameTree

-- The walk of `mainSurface` comes to every surface above that is no subsurface.
theorem mainSurfaceWalk_eq (h : s.mainSurfaceWalk n e = .ok r) (hsub : s.subSurfaces e = some sub)
    (hx : s.surfaces x = some surface) (hh : surface.handle = none)
    (ha : AboveOrSelf s.parentSurface sub.parent x) : r = some x := by
  induction n generalizing e sub
  case zero => contradiction
  case succ n ih =>
    simp only [mainSurfaceWalk, bind_eq_ok, subSurface_eq_ok] at h
    obtain ⟨_, hsub', h⟩ := h
    obtain rfl := Option.some.inj (hsub.symm.trans hsub')
    rcases Relation.ReflTransGen.cases_head ha with rfl | ⟨c, hc, ha⟩
    case inl =>
      simp only [hx, hh] at h
      exact (pure_eq_ok.mp h).symm
    case inr =>
      obtain ⟨parent, e', sub', hp, he', hsub', rfl, _⟩ := parentSurface_eq_some.mp hc
      simp only [hp, he'] at h
      exact ih h hsub' ha

namespace Subsurfaces

variable {noSurface : SurfaceId → Prop}

theorem init : Subsurfaces gone {} := by
  refine ⟨?_, ?_, ?_, fun x hx => ?_⟩
  case refine_4 =>
    have ⟨_, h, _⟩ := Relation.TransGen.head'_iff.mp hx
    simp [State.parentSurface] at h
  all_goals simp

theorem congr (h : Subsurfaces gone s) (ht : SameTree s s') : Subsurfaces gone s' where
  handle x surface' e hs' he := by
    have ⟨surface, hs, hh⟩ := ht.symm.exists_surface hs'
    have ⟨sub, hsub, hx⟩ := h.handle x surface e hs (hh.trans he)
    have ⟨sub', hsub', hx', _⟩ := ht.exists_sub hsub
    exact ⟨sub', hsub', hx'.trans hx⟩
  sub e sub' hsub' hg := by
    have ⟨sub, hsub, hx, _⟩ := ht.symm.exists_sub hsub'
    have ⟨surface, hs, he⟩ := h.sub e sub hsub (hx ▸ hg)
    have ⟨surface', hs', hh⟩ := ht.exists_surface hs
    exact ⟨surface', hx ▸ hs', hh.trans he⟩
  fresh e sub' hsub' := by
    have ⟨sub, hsub, _, hp⟩ := ht.symm.exists_sub hsub'
    rw [ht.next, ht.nextSurface, ← hp]
    exact h.fresh e sub hsub
  acyclic := ht.parentSurface_eq ▸ h.acyclic

theorem createSurface (h : Subsurfaces gone s) (hn : s.surfaces s.nextSurface = none) :
    Subsurfaces gone s.createSurface := by
  have hs : ∀ {y surface}, s.createSurface.surfaces y = some surface →
      s.surfaces y = some surface ∨ (y = s.nextSurface ∧ surface.handle = none) := by
    intro y surface hy
    by_cases hyn : y = s.nextSurface
    case pos =>
      subst hyn
      obtain rfl : {} = surface := by simpa [State.createSurface] using hy
      exact .inr ⟨rfl, rfl⟩
    case neg => exact .inl (by simpa [State.createSurface, hyn] using hy)
  constructor
  case handle =>
    intro x surface e hx he
    rcases hs hx with hx | ⟨_, hh⟩
    · exact h.handle x surface e hx he
    · simp [he] at hh
  case sub =>
    intro e sub hsub hg
    obtain ⟨surface, hx, he⟩ := h.sub e sub hsub hg
    have hne : sub.surface ≠ s.nextSurface := by rintro heq; simp [heq, hn] at hx
    exact ⟨surface, by simpa [State.createSurface, hne] using hx, he⟩
  case fresh => exact fun e sub hsub => (h.fresh e sub hsub).imp_right fun hp => hp.trans (Nat.lt_succ_self _)
  case acyclic =>
    refine h.acyclic.mono fun x p hp => ?_
    obtain ⟨surface, e, sub, hx, he, hsub, rfl, hp⟩ := parentSurface_eq_some.mp hp
    rcases hs hx with hx | ⟨_, hh⟩
    case inr => simp [he] at hh
    case inl =>
      refine parentSurface_eq_some.mpr ⟨surface, e, sub, hx, he, hsub, rfl, ?_⟩
      have hne := (h.fresh e sub hsub).2.ne
      simpa [State.createSurface, hne] using hp

-- A surface that has no subsurface and is not above the parent gets one.
theorem createSubSurface (h : Subsurfaces (fun _ => False) s) (hv : Settled s)
    (hx : s.surfaces x = some surface) (hh : surface.handle = none) (hp : (s.surfaces p).isSome)
    (ha : ¬AboveOrSelf s.parentSurface p x) (hc : s.createSubSurface x p = .ok s') :
    Subsurfaces (fun _ => False) s' := by
  refine congr (s := { s with
      subSurfaces := Function.update s.subSurfaces s.nextSubSurface (some { surface := x, parent := p })
      nextSubSurface := s.nextSubSurface + 1 }
    |>.modifySurface x fun surface => { surface with handle := some s.nextSubSurface }) ?_ ?_
  case refine_2 =>
    refine .trans (.modifySurface ?_) (SameTree.amend (Settled.modifySurface (Settled.modifySurface ?_ ?_ ?_) ?_ ?_) hc)
    exacts [fun _ => rfl, hv.of_surfaces rfl rfl rfl rfl rfl, fun _ => rfl, fun _ => .inl rfl, fun _ => rfl,
      fun _ => .inl rfl]
  generalize hs₁ : ({ s with
      subSurfaces := Function.update s.subSurfaces s.nextSubSurface (some { surface := x, parent := p })
      nextSubSurface := s.nextSubSurface + 1 }
    |>.modifySurface x fun surface => { surface with handle := some s.nextSubSurface }) = s₁
  have hsurf : ∀ y, s₁.surfaces y =
      if y = x then some { surface with handle := some s.nextSubSurface } else s.surfaces y := fun y => by
    rw [← hs₁, modifySurface_surfaces]
    simp [hx]
  have hsub : ∀ e, s₁.subSurfaces e = if e = s.nextSubSurface then some { surface := x, parent := p }
      else s.subSurfaces e := fun e => by
    rw [← hs₁]
    by_cases he : e = s.nextSubSurface <;> simp [State.modifySurface, he]
  have hnext : s₁.nextSubSurface = s.nextSubSurface + 1 := by rw [← hs₁]; rfl
  have hnexts : s₁.nextSurface = s.nextSurface := by rw [← hs₁]; rfl
  constructor
  case handle =>
    intro y surface' e hy he
    rw [hsurf] at hy
    split at hy
    case isTrue hyx =>
      obtain rfl := Option.some.inj hy
      obtain rfl : s.nextSubSurface = e := by simpa using he
      exact ⟨_, by rw [hsub, if_pos rfl], hyx.symm⟩
    case isFalse hyx =>
      obtain ⟨sub, hs, hxs⟩ := h.handle y surface' e hy he
      have hne : e ≠ s.nextSubSurface := (h.fresh e sub hs).1.ne
      exact ⟨sub, by rw [hsub, if_neg hne]; exact hs, hxs⟩
  case sub =>
    intro e sub hs _
    rw [hsub] at hs
    split at hs
    case isTrue he =>
      obtain rfl := Option.some.inj hs
      exact ⟨_, by rw [hsurf, if_pos rfl], by simp [he]⟩
    case isFalse he =>
      obtain ⟨surface', hs', he'⟩ := h.sub e sub hs id
      have hne : sub.surface ≠ x := by
        intro hsx
        rw [hsx, hx] at hs'
        obtain rfl := Option.some.inj hs'
        simp [hh] at he'
      exact ⟨surface', by rw [hsurf, if_neg hne]; exact hs', he'⟩
  case fresh =>
    intro e sub hs
    rw [hsub] at hs
    rw [hnext, hnexts]
    split at hs
    case isTrue he =>
      obtain rfl := Option.some.inj hs
      obtain ⟨parent, hp⟩ := Option.isSome_iff_exists.mp hp
      exact ⟨he ▸ Nat.lt_succ_self _, hv.lt_nextSurface hp⟩
    case isFalse => exact (h.fresh e sub hs).imp_left fun hlt => hlt.trans (Nat.lt_succ_self _)
  case acyclic =>
    refine (h.acyclic.update ha).mono fun y q hq => ?_
    obtain ⟨surface', e, sub, hy, he, hs, rfl, hq⟩ := parentSurface_eq_some.mp hq
    rw [hsurf] at hy hq
    rw [hsub] at hs
    split at hy
    case isTrue hyx =>
      subst hyx
      obtain rfl := Option.some.inj hy
      obtain rfl : s.nextSubSurface = e := by simpa using he
      rw [if_pos rfl] at hs
      obtain rfl := Option.some.inj hs
      rw [Function.update_self]
    case isFalse hyx =>
      obtain ⟨_, hs', _⟩ := h.handle y surface' e hy he
      have hne : e ≠ s.nextSubSurface := (h.fresh e _ hs').1.ne
      rw [if_neg hne] at hs
      rw [Function.update_of_ne hyx]
      refine parentSurface_eq_some.mpr ⟨surface', e, sub, hy, he, hs, rfl, ?_⟩
      split at hq
      case isTrue hqx => simp [hqx, hx]
      case isFalse => exact hq

-- The request for a second subsurface of a surface has to be rejected for the forest to last.
theorem getSubsurface (h : Subsurfaces (fun _ => False) s) (hv : Settled s)
    (hh : x = p ∨ ∀ surface, s.surfaces x = some surface → surface.handle = none)
    (hg : s.getSubsurface env x p = .ok s') : Subsurfaces (fun _ => False) s' := by
  have ⟨surface, parent, hx, hp, hg⟩ := getSubsurface_cases hg
  rcases hg with ⟨_, _, rfl⟩ | ⟨s₁, _, h₁, hg⟩
  case inl => exact h
  case inr =>
    have hv₀ : Settled (if surface.role.isNone then s.setSurfaceRole x .subSurface else s) := by
      split
      · exact hv.modifySurface (fun _ => rfl) (fun _ => .inl rfl)
      · exact hv
    have ht : SameTree s s₁ := by
      refine .trans ?_ (SameTree.nextRoleGeneration hv₀ h₁)
      split
      · exact .modifySurface fun _ => rfl
      · exact .refl
    have h₁' := h.congr ht
    have hv₁ := hv₀.nextRoleGeneration h₁
    rcases hg with ⟨_, rfl⟩ | ⟨hne, main, hm, ⟨_, rfl⟩ | ⟨hmain, hc⟩⟩
    · exact h₁'
    · exact h₁'
    · have hh := (hh.resolve_left hne) surface hx
      have ⟨surface₁, hx₁, hh₁⟩ := ht.exists_surface hx
      have ⟨parent₁, hp₁, hph₁⟩ := ht.exists_surface hp
      refine h₁'.createSubSurface hv₁ hx₁ (hh₁.trans hh) (by simp [hp₁]) (fun ha => ?_) hc
      rcases Relation.ReflTransGen.cases_head ha with rfl | ⟨c, hc, ha⟩
      · exact hne rfl
      · obtain ⟨_, e, sub, hp', he, hsub, rfl, _⟩ := parentSurface_eq_some.mp hc
        obtain rfl := Option.some.inj (hp₁.symm.trans hp')
        simp only [parentMainSurface, ← hph₁, he] at hm
        exact hmain (mainSurfaceWalk_eq hm hsub hx₁ (hh₁.trans hh) ha)

theorem removeHandle (h : Subsurfaces gone s) (hsub : s.subSurfaces e = some sub)
    (hs : ∀ y, (s'.surfaces y).map (·.handle) =
      if y = sub.surface then (s.surfaces y).map fun _ => none else (s.surfaces y).map (·.handle))
    (hsub' : s'.subSurfaces = Function.update s.subSurfaces e none)
    (hn : s'.nextSubSurface = s.nextSubSurface) (hns : s'.nextSurface = s.nextSurface) : Subsurfaces gone s' := by
  have old : ∀ {y surface' e'}, s'.surfaces y = some surface' → surface'.handle = some e' → y ≠ sub.surface ∧
      ∃ surface, s.surfaces y = some surface ∧ surface.handle = some e' := by
    intro y surface' e' hy he'
    have hy' := hs y
    rw [hy] at hy'
    split at hy'
    case isTrue =>
      obtain ⟨_, _, hnone⟩ := Option.map_eq_some_iff.mp hy'.symm
      simp [he'] at hnone
    case isFalse hne =>
      obtain ⟨surface, hsy, hh⟩ := Option.map_eq_some_iff.mp hy'.symm
      exact ⟨hne, surface, hsy, hh.trans he'⟩
  have olds : ∀ {e' sub'}, s'.subSurfaces e' = some sub' → e' ≠ e ∧ s.subSurfaces e' = some sub' := by
    intro e' sub' hs'
    rw [hsub'] at hs'
    by_cases hee : e' = e
    case pos => simp [hee] at hs'
    case neg => exact ⟨hee, by simpa [hee] using hs'⟩
  constructor
  case handle =>
    intro y surface' e' hy he'
    have ⟨hne, surface, hsy, hh⟩ := old hy he'
    have ⟨sub', hs', hx⟩ := h.handle y surface e' hsy hh
    have hee : e' ≠ e := by
      rintro rfl
      obtain rfl := Option.some.inj (hsub.symm.trans hs')
      exact hne hx.symm
    exact ⟨sub', by rw [hsub', Function.update_of_ne hee]; exact hs', hx⟩
  case sub =>
    intro e' sub' hs' hg
    have ⟨hee, hs'⟩ := olds hs'
    have ⟨surface, hsx, he'⟩ := h.sub e' sub' hs' hg
    have hne : sub'.surface ≠ sub.surface := by
      intro heq
      have ⟨surface', hsx', he⟩ := h.sub e sub hsub (heq ▸ hg)
      rw [heq] at hsx
      obtain rfl := Option.some.inj (hsx.symm.trans hsx')
      exact hee (Option.some.inj (he'.symm.trans he))
    have := hs sub'.surface
    rw [if_neg hne, hsx] at this
    obtain ⟨surface', h₁, h₂⟩ := Option.map_eq_some_iff.mp this
    exact ⟨surface', h₁, h₂.trans he'⟩
  case fresh =>
    intro e' sub' hs'
    rw [hn, hns]
    exact h.fresh e' sub' (olds hs').2
  case acyclic =>
    refine h.acyclic.mono fun y q hq => ?_
    obtain ⟨surface', e', sub', hy, he, hs', rfl, hq⟩ := parentSurface_eq_some.mp hq
    have ⟨_, surface, hsy, hh⟩ := old hy he
    refine parentSurface_eq_some.mpr ⟨surface, e', sub', hsy, hh, (olds hs').2, rfl, ?_⟩
    have := hs sub'.parent
    split at this
    · simpa [hq] using (congrArg Option.isSome this).symm
    · simpa [hq] using (congrArg Option.isSome this).symm

theorem destroySubSurface (h : Subsurfaces gone s) (hv : Settled s) (hd : s.destroySubSurface env e = .ok s') :
    Subsurfaces gone s' ∧ (∀ x, s.surfaces x = none → s'.surfaces x = none) ∧
      ∀ e' sub', s'.subSurfaces e' = some sub' → e' ≠ e ∧
        ∃ sub, s.subSurfaces e' = some sub ∧ sub.surface = sub'.surface ∧ sub.parent = sub'.parent := by
  have ⟨sub, s₁, s₂, hsub, h₁, h₂, heq⟩ := destroySubSurface_cases hd
  have ht₁ := SameTree.removeFromParent hv h₁
  have hv₁ := hv.removeFromParent h₁
  have ⟨sub₁, hsub₁, hx₁, _⟩ := ht₁.exists_sub hsub
  have ht₂ : SameTree (s₁.modifySurface sub.surface fun surface => { surface with handle := none, cached := none }) s₂ := by
    rcases releaseSurface_cases h₂ with ⟨hnone, rfl⟩ | ⟨_, h₂⟩
    · rw [modifySurface_of_none hnone]
      exact .refl
    · refine SameTree.nextRoleGeneration (hv₁.modifySurface ?_ ?_) h₂
      exacts [fun _ => rfl, fun _ => .inr rfl]
  have hs₂ : ∀ y, (s₂.surfaces y).map (·.handle) =
      if y = sub.surface then (s₁.surfaces y).map fun _ => none else (s₁.surfaces y).map (·.handle) := fun y => by
    rw [ht₂.handles, modifySurface_surfaces]
    split
    case isTrue h => subst h; cases s₁.surfaces sub.surface <;> rfl
    case isFalse => rfl
  have olds : ∀ e' sub', s'.subSurfaces e' = some sub' → e' ≠ e ∧
      ∃ sub, s.subSurfaces e' = some sub ∧ sub.surface = sub'.surface ∧ sub.parent = sub'.parent := by
    intro e' sub' hs'
    rw [heq] at hs'
    by_cases he : e' = e
    case pos => simp [he] at hs'
    case neg =>
      have ⟨sub₁, hsub₁, h₁, h₁'⟩ := ht₂.symm.exists_sub (show s₂.subSurfaces e' = some sub' by simpa [he] using hs')
      have ⟨sub, hsub, h₂, h₂'⟩ := ht₁.symm.exists_sub hsub₁
      exact ⟨he, sub, hsub, h₂.trans h₁, h₂'.trans h₁'⟩
  refine ⟨?_, fun x hx => ?_, olds⟩
  case refine_1 =>
    have hm : Subsurfaces gone { s₁ with
        surfaces := s₂.surfaces, subSurfaces := Function.update s₁.subSurfaces e none } :=
      removeHandle (h.congr ht₁) hsub₁ (hx₁ ▸ hs₂) rfl rfl rfl
    rw [heq]
    refine hm.congr ⟨fun _ => rfl, fun e' => ?_, ht₂.next, ht₂.nextSurface, ht₂.extensions⟩
    by_cases he : e' = e
    case pos => simp [he]
    case neg => simpa [he, State.modifySurface] using ht₂.subSurfaces e'
  case refine_2 =>
    have : (s₂.surfaces x).isSome = (s₁.surfaces x).isSome := by
      have := congrArg Option.isSome (hs₂ x)
      split at this <;> simpa using this
    rw [ht₁.isSome_eq, hx] at this
    rw [heq]
    simpa using this

theorem destroySurface (h : Subsurfaces (fun _ => False) s) (hv : Settled s) (hd : s.destroySurface env x = .ok s') :
    Subsurfaces (fun _ => False) s' := by
  obtain ⟨s₁, h₁, hd⟩ := bind_eq_ok.mp hd
  have hv₀ : Settled (s.modifySurface x fun surface => { surface with tearingDown := true }) :=
    hv.modifySurface (fun _ => rfl) (fun _ => .inl rfl)
  have ht : SameTree s s₁ := by
    refine .trans (.modifySurface ?_) (SameTree.tryApplyFirst hv₀ h₁)
    exact fun _ => rfl
  have h' := h.congr ht
  have hremoved : ∀ {y surface}, (s₁.removeSurface x).surfaces y = some surface →
      y ≠ x ∧ s₁.surfaces y = some surface := by
    intro y surface hy
    by_cases hyx : y = x
    case pos => simp [State.removeSurface, hyx] at hy
    case neg => exact ⟨hyx, by simpa [State.removeSurface, hyx] using hy⟩
  have hgone : Subsurfaces (· = x) (s₁.removeSurface x) := by
    refine ⟨fun y surface e hy he => h'.handle y surface e (hremoved hy).2 he, fun e sub hsub hg => ?_, h'.fresh,
      h'.acyclic.mono fun y q hq => ?_⟩
    · obtain ⟨surface, hs, he⟩ := h'.sub e sub hsub id
      exact ⟨surface, by simpa [State.removeSurface, hg] using hs, he⟩
    · obtain ⟨surface, e, sub, hy, he, hsub, rfl, hq⟩ := parentSurface_eq_some.mp hq
      obtain ⟨_, hq⟩ := Option.isSome_iff_exists.mp hq
      exact parentSurface_eq_some.mpr ⟨surface, e, sub, (hremoved hy).2, he, hsub, rfl, by simp [(hremoved hq).2]⟩
  -- The subsurfaces of the surface are destroyed one after the other.
  obtain ⟨_, hend, hnone⟩ := foldlM_range_induct
    (fun i s₂ => Settled s₂ ∧ (Subsurfaces (· = x) s₂ ∧ s₂.surfaces x = none) ∧
      ∀ e sub, s₂.subSurfaces e = some sub → sub.surface = x → i ≤ e ∧ e < s₁.nextSubSurface)
    (fun i _ s₂ s₃ h hs => by
      obtain ⟨hv₂, ⟨h₂, hx₂⟩, hi⟩ := h
      split at hs
      case h_1 hnone =>
        obtain rfl := pure_eq_ok.mp hs
        refine ⟨hv₂, ⟨h₂, hx₂⟩, fun e sub hsub hx => ?_⟩
        obtain ⟨hle, hlt⟩ := hi e sub hsub hx
        have : e ≠ i := by rintro rfl; simp [hnone] at hsub
        exact ⟨Nat.lt_of_le_of_ne hle this.symm, hlt⟩
      case h_2 sub hsub =>
        split at hs
        case isTrue hx =>
          obtain ⟨h₃, hdead, hsubs⟩ := h₂.destroySubSurface hv₂ hs
          refine ⟨hv₂.destroySubSurface hs, ⟨h₃, hdead x hx₂⟩, fun e sub' hsub' hx' => ?_⟩
          obtain ⟨hne, sub₂, hsub₂, hxs, _⟩ := hsubs e sub' hsub'
          obtain ⟨hle, hlt⟩ := hi e sub₂ hsub₂ (hxs.trans hx')
          exact ⟨Nat.lt_of_le_of_ne hle hne.symm, hlt⟩
        case isFalse hx =>
          obtain rfl := pure_eq_ok.mp hs
          refine ⟨hv₂, ⟨h₂, hx₂⟩, fun e sub' hsub' hx' => ?_⟩
          obtain ⟨hle, hlt⟩ := hi e sub' hsub' hx'
          have : e ≠ i := by
            rintro rfl
            obtain rfl := Option.some.inj (hsub.symm.trans hsub')
            exact hx hx'
          exact ⟨Nat.lt_of_le_of_ne hle this.symm, hlt⟩)
    ⟨(hv₀.tryApplyFirst h₁).removeSurface, ⟨hgone, by simp [State.removeSurface]⟩,
      fun e sub hsub _ => ⟨Nat.zero_le _, (h'.fresh e sub hsub).1⟩⟩ hd
  refine ⟨hend.1.handle, fun e sub hsub _ => hend.1.sub e sub hsub fun hx => ?_, hend.1.fresh, hend.1.acyclic⟩
  obtain ⟨hle, hlt⟩ := hnone e sub hsub hx
  exact absurd hlt (Nat.not_lt.mpr hle)

end Subsurfaces

-- A request for a subsurface comes for a surface that has none.
def State.unparented (s : State) : Event → Bool
  | .getSubsurface x parent => x = parent || (s.surfaces x).all (·.handle.isNone)
  | _ => true

namespace Subsurfaces

theorem addExtension (h : Subsurfaces gone s) : Subsurfaces gone (s.addExtension x) :=
  congr (s := { s with extensions := _, nextExtension := s.nextExtension + 1 })
    ⟨h.handle, h.sub, h.fresh, h.acyclic⟩ SameTree.modifyPending

theorem removeExtension (h : Subsurfaces gone s) (hv : Settled s) {extension : ExtensionId}
    (hs : s.removeExtension extension x = .ok s') : Subsurfaces gone s' := by
  refine congr (s := { s with extensions := Function.update s.extensions extension none })
    ⟨h.handle, h.sub, h.fresh, h.acyclic⟩ (.trans SameTree.modifyPending (SameTree.amend ?_ hs))
  refine Settled.modifyPending ?_
  exact hv.of_surfaces rfl rfl rfl rfl rfl

theorem handle_event (h : Subsurfaces (fun _ => False) s) (hv : Settled s) {event : Event} (he : s.enabled event)
    (hp : s.unparented event) (hs : s.handle env event = .ok s') : Subsurfaces (fun _ => False) s' := by
  by_cases hq : event.Quiet
  case pos => exact h.congr (SameTree.handle hv he hs hq)
  case neg =>
    cases event <;> first | exact absurd trivial hq | simp only [State.handle] at hs
    case createSurface =>
      rw [← pure_eq_ok.mp hs]
      refine h.createSurface (Option.eq_none_iff_forall_not_mem.mpr fun surface hsurface => ?_)
      exact (hv.lt_nextSurface hsurface).false
    case addExtension => exact pure_eq_ok.mp hs ▸ h.addExtension
    case removeExtension e =>
      cases hx : s.extensions e <;> simp only [hx, Option.elim] at hs
      · exact pure_eq_ok.mp hs ▸ h
      · exact h.removeExtension hv hs
    case getSubsurface x parent =>
      refine h.getSubsurface hv ?_ hs
      simp only [State.unparented, Bool.or_eq_true, decide_eq_true_eq] at hp
      exact hp.imp_right fun hall surface hx => by simpa [hx] using hall
    case destroySubSurface => exact (h.destroySubSurface hv hs).1
    case destroySurface => exact h.destroySurface hv hs

theorem reachable {P : State → Event → Prop} (hP : ∀ s event, P s event → s.unparented event)
    (h : State.Reachable env P s) : Subsurfaces (fun _ => False) s := by
  induction h
  case init => exact init
  case step hr he hp hs ih => exact ih.handle_event (Settled.reachable hr) he (hP _ _ hp) hs

end Subsurfaces

-- The subsurface of the parent.
def State.parentHandle (s : State) (e : SubSurfaceId) : Option SubSurfaceId :=
  (s.subSurfaces e).bind fun sub => (s.surfaces sub.parent).bind (·.handle)

namespace Subsurfaces

section

variable (h : Subsurfaces (fun _ => False) s)
include h

theorem unique {e' : SubSurfaceId} {sub' : SubSurface} (hs : s.subSurfaces e = some sub)
    (hs' : s.subSurfaces e' = some sub') (hx : sub.surface = sub'.surface) : e = e' := by
  have ⟨surface, hy, he⟩ := h.sub e sub hs id
  have ⟨surface', hy', he'⟩ := h.sub e' sub' hs' id
  rw [hx] at hy
  obtain rfl := Option.some.inj (hy.symm.trans hy')
  exact Option.some.inj (he.symm.trans he')

theorem exists_parentHandle {e' : SubSurfaceId} (he : s.parentHandle e = some e') :
    ∃ sub sub' parent, s.subSurfaces e = some sub ∧ s.surfaces sub.parent = some parent ∧
      parent.handle = some e' ∧ s.subSurfaces e' = some sub' ∧ sub'.surface = sub.parent ∧
      s.parentSurface sub.surface = some sub.parent := by
  obtain ⟨sub, hsub, he⟩ := Option.bind_eq_some_iff.mp he
  obtain ⟨parent, hp, he⟩ := Option.bind_eq_some_iff.mp he
  have ⟨sub', hsub', hx⟩ := h.handle _ parent e' hp he
  have ⟨surface, hs, hh⟩ := h.sub e sub hsub id
  exact ⟨sub, sub', parent, hsub, hp, he, hsub', hx,
    parentSurface_eq_some.mpr ⟨surface, e, sub, hs, hh, hsub, rfl, by simp [hp]⟩⟩

theorem parentHandle_acyclic : Acyclic s.parentHandle := by
  intro e he
  refine h.acyclic _ (Relation.TransGen.lift (fun e => ((s.subSurfaces e).map (·.surface)).getD 0) ?_ e e he)
  intro a b hab
  have ⟨sub, sub', _, hsub, _, _, hsub', hx, hp⟩ := h.exists_parentHandle hab
  simpa [Function.onFun, hsub, hsub', hx] using hp

theorem rank_parentHandle_lt {e' : SubSurfaceId} (he : s.parentHandle e = some e') :
    rank s.parentHandle (.range s.nextSubSurface) e' < rank s.parentHandle (.range s.nextSubSurface) e := by
  have ⟨_, sub', _, _, _, _, hsub', _, _⟩ := h.exists_parentHandle he
  exact rank_lt h.parentHandle_acyclic he (Finset.mem_range.mpr (h.fresh e' sub' hsub').1)

omit h in
theorem rank_parentHandle_le : rank s.parentHandle (.range s.nextSubSurface) e ≤ s.nextSubSurface := by
  simpa using rank_le s.parentHandle (.range s.nextSubSurface) e

omit h in
theorem parentHandle_eq {parent : Surface} (hsub : s.subSurfaces e = some sub)
    (hp : s.surfaces sub.parent = some parent) : s.parentHandle e = parent.handle := by
  simp [State.parentHandle, hsub, hp]

theorem mainSurfaceWalk_ok (hn : rank s.parentHandle (.range s.nextSubSurface) e < n)
    (hsub : s.subSurfaces e = some sub) : ∃ r, s.mainSurfaceWalk n e = .ok r := by
  induction n generalizing e sub
  case zero => contradiction
  case succ n ih =>
    simp only [mainSurfaceWalk, subSurface_eq_ok.mpr hsub, bind, Except.bind]
    cases hp : s.surfaces sub.parent
    case none => exact ⟨_, rfl⟩
    case some parent =>
      cases he : parent.handle <;> simp only [he]
      case none => exact ⟨_, rfl⟩
      case some e' =>
        have he' := (parentHandle_eq hsub hp).trans he
        have ⟨_, sub', _, _, _, _, hsub', _, _⟩ := h.exists_parentHandle he'
        exact ih (Nat.lt_of_lt_of_le (h.rank_parentHandle_lt he') (Nat.le_of_lt_succ hn)) hsub'

theorem isSynchronizedWalk_ok (hn : rank s.parentHandle (.range s.nextSubSurface) e < n)
    (hsub : s.subSurfaces e = some sub) : ∃ b, s.isSynchronizedWalk n e = .ok b := by
  induction n generalizing e sub
  case zero => contradiction
  case succ n ih =>
    simp only [isSynchronizedWalk, subSurface_eq_ok.mpr hsub, bind, Except.bind]
    split
    case isTrue => exact ⟨_, rfl⟩
    case isFalse =>
      cases hp : s.surfaces sub.parent
      case none => exact ⟨_, rfl⟩
      case some parent =>
        cases he : parent.handle <;> simp only [he]
        case none => exact ⟨_, rfl⟩
        case some e' =>
          have he' := (parentHandle_eq hsub hp).trans he
          have ⟨_, sub', _, _, _, _, hsub', _, _⟩ := h.exists_parentHandle he'
          exact ih (Nat.lt_of_lt_of_le (h.rank_parentHandle_lt he') (Nat.le_of_lt_succ hn)) hsub'

theorem isAncestorWalk_ok (hn : ∀ surface e, s.surfaces x = some surface → surface.handle = some e →
    rank s.parentHandle (.range s.nextSubSurface) e + 1 < n) (hpos : 0 < n) :
    ∃ b, s.isAncestorWalk y n x = .ok b := by
  induction n generalizing x
  case zero => contradiction
  case succ n ih =>
    unfold isAncestorWalk
    cases hx : s.surfaces x
    case none => exact ⟨_, rfl⟩
    case some surface =>
      cases he : surface.handle <;> simp only [he]
      case none => exact ⟨_, rfl⟩
      case some e =>
        have ⟨sub, hsub, _⟩ := h.handle x surface e hx he
        have hlt := hn surface e hx he
        simp only [subSurface_eq_ok.mpr hsub, bind, Except.bind]
        split
        case isTrue => exact ⟨_, rfl⟩
        case isFalse =>
          refine ih (fun parent e' hp he' => ?_) (by omega)
          have := h.rank_parentHandle_lt ((parentHandle_eq hsub hp).trans he')
          omega

theorem mainSurface_ok (hsub : s.subSurfaces e = some sub) : ∃ r, s.mainSurface e = .ok r :=
  h.mainSurfaceWalk_ok (Nat.lt_succ_of_le rank_parentHandle_le) hsub

theorem isSynchronized_ok (hsub : s.subSurfaces e = some sub) : ∃ b, s.isSynchronized e = .ok b :=
  h.isSynchronizedWalk_ok (Nat.lt_succ_of_le rank_parentHandle_le) hsub

theorem isAncestor_ok : ∃ b, s.isAncestor x y = .ok b :=
  h.isAncestorWalk_ok (fun _ e _ _ => Nat.succ_lt_succ (Nat.lt_succ_of_le (rank_parentHandle_le (e := e))))
    (Nat.succ_pos _)

end

end Subsurfaces

-- If no surface with a subsurface gets another one, the subsurfaces form a forest in every run.
theorem subsurfaces_forest (env : Environment) (s : State) (h : State.Reachable env (·.unparented ·) s) :
    (∀ x, ¬Relation.TransGen (fun x y => s.parentSurface x = some y) x x) ∧
    (∀ e e' sub sub', s.subSurfaces e = some sub → s.subSurfaces e' = some sub' →
      sub.surface = sub'.surface → e = e') ∧
    (∀ e, (s.subSurfaces e).isSome →
      (∃ main, s.mainSurface e = .ok main) ∧ ∃ sync, s.isSynchronized e = .ok sync) ∧
    ∀ x y, ∃ b, s.isAncestor x y = .ok b := by
  have h := Subsurfaces.reachable (fun _ _ hp => hp) h
  refine ⟨h.acyclic, fun e e' sub sub' hs hs' => h.unique hs hs', fun e he => ?_, fun x y => h.isAncestor_ok⟩
  have ⟨sub, hsub⟩ := Option.isSome_iff_exists.mp he
  exact ⟨h.mainSurface_ok hsub, h.isSynchronized_ok hsub⟩

-- The chain of the surfaces 2, 1 and 0 is turned into the chain of 0, 2 and 1.
theorem subsurfaces_forest_chain : ∃ s, State.run (.insertion fun _ _ => 0) State.unparented {}
      [.createSurface, .createSurface, .createSurface, .getSubsurface 1 0, .getSubsurface 2 1,
        .destroySubSurface 0, .getSubsurface 0 2] = some s ∧
    s.parentSurface 0 = some 2 ∧ s.parentSurface 2 = some 1 ∧
    ¬Relation.TransGen (fun x y => s.parentSurface x = some y) 0 0 := by
  refine exists_reachable (fun s => s.parentSurface 0 = some 2 ∧ s.parentSurface 2 = some 1) (by decide)
    fun s hp h => ?_
  have ⟨h₁, h₂⟩ := of_decide_eq_true hp
  exact ⟨h₁, h₂, (subsurfaces_forest _ s h).1 0⟩

-- A surface that has a subsurface already becomes a subsurface of its own descendant.
theorem subsurfaces_cycle : ∃ s, State.run (.insertion fun _ _ => 0) (fun _ _ => true) {}
      [.createSurface, .createSurface, .createSurface, .getSubsurface 1 0, .getSubsurface 2 1,
        .getSubsurface 1 2] = some s ∧
    State.Reachable (.insertion fun _ _ => 0) (fun _ _ => true) s ∧
    Relation.TransGen (fun x y => s.parentSurface x = some y) 1 1 ∧
    s.subSurfaces 0 = some { surface := 1, parent := 0 } ∧
    s.subSurfaces 2 = some { surface := 1, parent := 2 } := by
  refine exists_reachable (fun s => s.parentSurface 1 = some 2 ∧ s.parentSurface 2 = some 1 ∧
    s.subSurfaces 0 = some { surface := 1, parent := 0 } ∧
    s.subSurfaces 2 = some { surface := 1, parent := 2 }) (by decide) fun s hp h => ?_
  have ⟨h₁, h₂, h₃⟩ := of_decide_eq_true hp
  exact ⟨h, .tail (.single h₁) h₂, h₃⟩

end KWin
