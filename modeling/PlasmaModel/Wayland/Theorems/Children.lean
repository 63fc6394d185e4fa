import Mathlib.Data.List.InsertIdx
import PlasmaModel.Lib.ListMove
import PlasmaModel.Wayland.Theorems.States

namespace KWin

open Fallible State SurfaceState

-- A state of the surface refers to live subsurfaces of the surface and to its extensions.
structure SurfaceState.Lists.Sound (subSurfaces : SubSurfaceId → Option SubSurface)
    (extensions : ExtensionId → Option SurfaceId) (q : SurfaceId) (lists : Lists) : Prop where
  children   : ∀ e ∈ lists.below ++ lists.above, ∃ sub, subSurfaces e = some sub ∧ sub.parent = q
  extensions : ∀ k ∈ lists.extensions, extensions k = some q
  below      : lists.below.Nodup
  above      : lists.above.Nodup

structure Children (s : State) : Prop where
  sound       : AllLists s (Lists.Sound s.subSurfaces s.extensions)
  subSurfaces : ∀ e sub, s.subSurfaces e = some sub → e < s.nextSubSurface
  extensions  : ∀ k q, s.extensions k = some q → k < s.nextExtension

-- Whether another surface has cached a state of the surface that has the property.
def State.cachedElsewhere (s : State) (q : SurfaceId) (p : SurfaceState → Bool) : Bool :=
  (List.range s.nextSurface).any fun y =>
    y ≠ q && (s.cachedAt y).any (·.any fun entry => entry.surface = q && p entry.state)

-- A subsurface may go as long as no other surface has cached a state of the parent that lists it.
def State.removable (s : State) (e : SubSurfaceId) : Bool :=
  (s.subSurfaces e).all fun sub =>
    (s.surfaces sub.parent).isNone || !s.cachedElsewhere sub.parent (e ∈ ·.children)

-- What is removed is not in a state which the removal does not reach.
def State.unreferenced (s : State) : Event → Bool
  | .destroySubSurface e => s.removable e
  | .destroySurface x => (List.range s.nextSubSurface).all fun e =>
      !(s.subSurfaces e).any (·.surface = x) || s.removable e
  | .removeExtension k => (s.extensions k).all fun x =>
      !(s.surfaces x).any (k ∈ ·.current.extensions) && !s.cachedElsewhere x (k ∈ ·.extensions)
  | .commitTransaction _ => false
  | _ => true

variable {env : Environment} {s s' : State} {x y q parent : SurfaceId} {e : SubSurfaceId} {k : ExtensionId}
variable {state : SurfaceState} {p : SurfaceState → Bool} {surface : Surface} {sub : SubSurface}
variable {subSurfaces subSurfaces' : SubSurfaceId → Option SubSurface} {lists lists' : Lists}
variable {extensions extensions' : ExtensionId → Option SurfaceId} {entries : List TransactionEntry}

theorem not_cachedElsewhere (hv : Settled s) (h : s.cachedElsewhere q p = false) (hy : y ≠ q)
    (hc : s.cachedAt y = some entries) : ∀ entry ∈ entries, entry.surface = q → p entry.state = false := by
  intro entry he hx
  have hlt : y < s.nextSurface := by
    obtain ⟨surface, hs, _⟩ := Option.bind_eq_some_iff.mp hc
    exact hv.lt_nextSurface hs
  simp only [State.cachedElsewhere, List.any_eq_false, List.mem_range] at h
  have := h y hlt
  simp only [hc, Option.any_some, ne_eq, hy, not_false_eq_true, decide_true, Bool.true_and,
    Bool.not_eq_true, List.any_eq_false] at this
  simpa [hx] using this entry he

namespace SurfaceState.Lists.Sound

theorem mono (h : Sound subSurfaces extensions q lists)
    (hs : ∀ e ∈ lists.below ++ lists.above, ∀ sub, subSurfaces e = some sub →
      ∃ sub', subSurfaces' e = some sub' ∧ sub'.parent = sub.parent)
    (he : ∀ k ∈ lists.extensions, ∀ x, extensions k = some x → extensions' k = some x) :
    Sound subSurfaces' extensions' q lists where
  children e hm :=
    have ⟨sub, hsub, hp⟩ := h.children e hm
    have ⟨sub', hsub', hp'⟩ := hs e hm sub hsub
    ⟨sub', hsub', hp'.trans hp⟩
  extensions k hk := he k hk q (h.extensions k hk)
  below := h.below
  above := h.above

theorem sublist (h : Sound subSurfaces extensions q lists) (hb : lists'.below.Sublist lists.below)
    (ha : lists'.above.Sublist lists.above) (he : lists'.extensions ⊆ lists.extensions) :
    Sound subSurfaces extensions q lists' where
  children e hm := h.children e ((hb.append ha).subset hm)
  extensions k hk := h.extensions k (he hk)
  below := hb.nodup h.below
  above := ha.nodup h.above

-- What is in no list may change.
theorem update {sub? : Option SubSurface} (h : Sound subSurfaces extensions q lists)
    (he : e ∉ lists.below ++ lists.above) : Sound (Function.update subSurfaces e sub?) extensions q lists := by
  refine h.mono (fun e' hm sub hsub => ⟨sub, ?_, rfl⟩) fun _ _ _ hk => hk
  rw [Function.update_of_ne, hsub]
  rintro rfl
  exact he hm

theorem insertAbove (h : Sound subSurfaces extensions q lists) (hsub : subSurfaces e = some sub)
    (hp : sub.parent = q) (he : e ∉ lists.above) {above : List SubSurfaceId} (ha : above.Perm (e :: lists.above)) :
    Sound subSurfaces extensions q { lists with above } where
  children e' hm := by
    rcases List.mem_append.mp hm with hm | hm
    · exact h.children e' (List.mem_append_left _ hm)
    · rcases List.mem_cons.mp (ha.mem_iff.mp hm) with rfl | hm
      · exact ⟨sub, hsub, hp⟩
      · exact h.children e' (List.mem_append_right _ hm)
  extensions := h.extensions
  below := h.below
  above := ha.nodup_iff.mpr (List.nodup_cons.mpr ⟨he, h.above⟩)

theorem insertBelow (h : Sound subSurfaces extensions q lists) (hsub : subSurfaces e = some sub)
    (hp : sub.parent = q) (he : e ∉ lists.below) {below : List SubSurfaceId} (hb : below.Perm (e :: lists.below)) :
    Sound subSurfaces extensions q { lists with below } where
  children e' hm := by
    rcases List.mem_append.mp hm with hm | hm
    · rcases List.mem_cons.mp (hb.mem_iff.mp hm) with rfl | hm
      · exact ⟨sub, hsub, hp⟩
      · exact h.children e' (List.mem_append_left _ hm)
    · exact h.children e' (List.mem_append_right _ hm)
  extensions := h.extensions
  below := hb.nodup_iff.mpr (List.nodup_cons.mpr ⟨he, h.below⟩)
  above := h.above

theorem removeChild (h : Sound subSurfaces extensions q state.lists) :
    Sound subSurfaces extensions q (state.removeChild e).lists ∧ e ∉ (state.removeChild e).children := by
  refine ⟨h.sublist List.erase_sublist List.erase_sublist (List.Subset.refl _), fun hm => ?_⟩
  rcases List.mem_append.mp hm with hm | hm
  · exact h.below.not_mem_erase hm
  · exact h.above.not_mem_erase hm

theorem removeAllChild (h : Sound subSurfaces extensions q state.lists) :
    Sound subSurfaces extensions q (state.removeAllChild e).lists ∧ e ∉ (state.removeAllChild e).children := by
  refine ⟨h.sublist List.filter_sublist List.filter_sublist (List.Subset.refl _), fun hm => ?_⟩
  simp [SurfaceState.removeAllChild, SurfaceState.children] at hm

theorem insertAboveIdx (h : Sound subSurfaces extensions q lists) (hsub : subSurfaces e = some sub)
    (hp : sub.parent = q) (he : e ∉ lists.above) (i : Nat) :
    Sound subSurfaces extensions q { lists with above := lists.above.insertIdx i e } := by
  by_cases hi : i ≤ lists.above.length
  case pos => exact h.insertAbove hsub hp he (List.perm_insertIdx e lists.above hi)
  case neg => rwa [List.insertIdx_of_length_lt (by omega)]

theorem insertBelowIdx (h : Sound subSurfaces extensions q lists) (hsub : subSurfaces e = some sub)
    (hp : sub.parent = q) (he : e ∉ lists.below) (i : Nat) :
    Sound subSurfaces extensions q { lists with below := lists.below.insertIdx i e } := by
  by_cases hi : i ≤ lists.below.length
  case pos => exact h.insertBelow hsub hp he (List.perm_insertIdx e lists.below hi)
  case neg => rwa [List.insertIdx_of_length_lt (by omega)]

section

variable (h : Sound subSurfaces extensions q state.lists) (hsub : subSurfaces e = some sub) (hp : sub.parent = q)
include h hsub hp

theorem raiseChild {isParent : Bool} {anchor : Option SubSurfaceId} :
    Sound subSurfaces extensions q (state.raiseChild e isParent anchor).lists := by
  have ⟨hr, hn⟩ := h.removeChild (e := e)
  have ha : e ∉ (state.removeChild e).above := fun hm => hn (List.mem_append_right _ hm)
  have hb : e ∉ (state.removeChild e).below := fun hm => hn (List.mem_append_left _ hm)
  unfold SurfaceState.raiseChild
  simp only
  split
  case isTrue => exact hr.insertAbove hsub hp ha (.refl _)
  case isFalse =>
    split
    case h_1 => exact hr.insertAboveIdx hsub hp ha _
    case h_2 => exact hr.insertBelowIdx hsub hp hb _
    case h_3 => exact hr

theorem lowerChild {isParent : Bool} {anchor : Option SubSurfaceId} :
    Sound subSurfaces extensions q (state.lowerChild e isParent anchor).lists := by
  have ⟨hr, hn⟩ := h.removeChild (e := e)
  have ha : e ∉ (state.removeChild e).above := fun hm => hn (List.mem_append_right _ hm)
  have hb : e ∉ (state.removeChild e).below := fun hm => hn (List.mem_append_left _ hm)
  unfold SurfaceState.lowerChild
  simp only
  split
  case isTrue => exact hr.insertBelow hsub hp hb (List.perm_append_singleton _ _)
  case isFalse =>
    split
    case h_1 => exact hr.insertAboveIdx hsub hp ha _
    case h_2 => exact hr.insertBelowIdx hsub hp hb _
    case h_3 => exact hr

theorem addChild (he : e ∉ state.above) : Sound subSurfaces extensions q (state.addChild e).lists :=
  h.insertAbove hsub hp he (List.perm_append_singleton _ _)

end

end SurfaceState.Lists.Sound

namespace Children

theorem init : Children {} := by
  refine ⟨fun q state hh => ?_, by simp, by simp⟩
  cases hh <;> simp_all

theorem of_lists (h : Children s) (ha : AllLists s' (Lists.Sound s.subSurfaces s.extensions)) (ht : SameTree s s') :
    Children s' where
  sound := ha.imp fun q lists _ hl => hl.mono
    (fun e _ sub hsub => have ⟨sub', hsub', _, hp⟩ := ht.exists_sub hsub; ⟨sub', hsub', hp⟩)
    (fun k _ x hk => ht.extensions.1 ▸ hk)
  subSurfaces e sub hsub := by
    have ⟨_, hsub, _⟩ := ht.symm.exists_sub hsub
    exact ht.next ▸ h.subSurfaces e _ hsub
  extensions k q hk := ht.extensions.2 ▸ h.extensions k q (ht.extensions.1 ▸ hk)

theorem createSurface (h : Children s) (hv : Settled s) : Children s.createSurface where
  sound := h.sound.createSurface hv ⟨by simp, by simp, .nil, .nil⟩
  subSurfaces := h.subSurfaces
  extensions := h.extensions

theorem placeChild (h : Children s) {place : SurfaceState → SubSurfaceId → Bool → Option SubSurfaceId → SurfaceState}
    (hplace : ∀ {state sub isParent anchor}, Lists.Sound s.subSurfaces s.extensions sub.parent state.lists →
      s.subSurfaces e = some sub →
      Lists.Sound s.subSurfaces s.extensions sub.parent (place state e isParent anchor).lists)
    (hs : s.placeChild place e x = .ok s') : Children s' := by
  simp only [State.placeChild, bind_eq_ok, subSurface_eq_ok] at hs
  obtain ⟨sub, hsub, anchor, _, hs⟩ := hs
  obtain rfl := pure_eq_ok.mp hs
  exact ⟨h.sound.modifyPending fun surface hp => hplace (h.sound _ _ (.pending hp)) hsub, h.subSurfaces, h.extensions⟩

theorem addExtension (h : Children s) : Children (s.addExtension x) := by
  have hne : ∀ {k q}, s.extensions k = some q → k ≠ s.nextExtension := fun hk => (h.extensions _ _ hk).ne
  have hold : ∀ {k q}, s.extensions k = some q →
      Function.update s.extensions s.nextExtension (some x) k = some q := fun hk => by
    rw [Function.update_of_ne (hne hk), hk]
  have ha : AllLists { s with
      extensions := Function.update s.extensions s.nextExtension (some x)
      nextExtension := s.nextExtension + 1 }
      (Lists.Sound s.subSurfaces (Function.update s.extensions s.nextExtension (some x))) := by
    refine AllLists.of_eq (s := s) (h.sound.imp fun q lists _ hl => hl.mono ?_ ?_) rfl rfl
    · exact fun e _ sub hsub => ⟨sub, hsub, rfl⟩
    · exact fun k _ q hk => hold hk
  constructor
  case sound =>
    refine ha.modifyPending fun surface hs => ?_
    have hp := ha _ _ (.pending hs)
    refine ⟨hp.children, fun k hk => ?_, hp.below, hp.above⟩
    rcases List.mem_append.mp hk with hk | hk
    · exact hp.extensions k hk
    · rw [List.mem_singleton.mp hk, Function.update_self]
  case subSurfaces => exact h.subSurfaces
  case extensions =>
    intro k q hk
    by_cases hkn : k = s.nextExtension
    case pos => exact hkn ▸ Nat.lt_succ_self _
    case neg =>
      have hk : s.extensions k = some q := by simpa [State.addExtension, State.modifyPending, State.modifySurface, hkn] using hk
      exact (h.extensions k q hk).trans (Nat.lt_succ_self _)

theorem removeExtension (h : Children s) (hv : Settled s) (hk : s.extensions k = some x)
    (hp : s.unreferenced (.removeExtension k)) (hs : s.removeExtension k x = .ok s') : Children s' := by
  simp only [State.unreferenced, hk, Option.all_some, Bool.and_eq_true, Bool.not_eq_true'] at hp
  have hv₀ : Settled ({ s with extensions := Function.update s.extensions k none }) :=
    hv.of_surfaces rfl rfl rfl rfl rfl
  have ⟨_, hv₁⟩ := hv₀.modifyPending (x := x) (f := (·.eraseExtension k))
  have ha : AllLists { s with extensions := Function.update s.extensions k none }
      (Lists.Sound s.subSurfaces s.extensions) := h.sound.of_eq rfl rfl
  have hother : ∀ {q lists}, k ∉ lists.extensions → Lists.Sound s.subSurfaces s.extensions q lists →
      Lists.Sound s.subSurfaces (Function.update s.extensions k none) q lists := fun hkn hl =>
    hl.mono (fun e _ sub hsub => ⟨sub, hsub, rfl⟩) fun k' hk' q hq => by
      rw [Function.update_of_ne (by rintro rfl; exact hkn hk'), hq]
  have herase : ∀ {q} {state : SurfaceState}, Lists.Sound s.subSurfaces s.extensions q state.lists →
      Lists.Sound s.subSurfaces (Function.update s.extensions k none) q (state.eraseExtension k).lists := fun hl =>
    hother (by simp [SurfaceState.lists, SurfaceState.eraseExtension])
      (hl.sublist (.refl _) (.refl _) (List.filter_sublist.subset))
  have hall : AllLists s' (Lists.Sound s.subSurfaces (Function.update s.extensions k none)) := by
    rw [(hv₁.amend hs).1]
    refine ha.patch (fun q lists hq hl => hother (fun hm => ?_) hl) (fun surface hsx => ⟨?_, ?_⟩) (fun _ => rfl)
      (fun _ => herase) fun halive y hy entries hc entry he hx => ?_
    · exact hq (Option.some.inj ((hl.extensions k hm).symm.trans hk))
    · have hsx : s.surfaces x = some surface := hsx
      have hnot : k ∉ surface.current.extensions := by
        have := hp.1
        rw [hsx] at this
        simpa using this
      have := h.sound _ _ (.current hsx)
      exact hother hnot this
    · have := h.sound _ _ (.pending (show s.surfaces x = some surface from hsx))
      exact herase this
    · have hnot := not_cachedElsewhere hv hp.2 hy hc entry he hx
      exact hother (by simpa using hnot : k ∉ entry.state.extensions) (ha _ _ (.cached halive hc he hx))
  have hstatic : s'.subSurfaces = s.subSurfaces ∧ s'.extensions = Function.update s.extensions k none ∧
      s'.nextSubSurface = s.nextSubSurface ∧ s'.nextExtension = s.nextExtension := by
    rw [(hv₁.amend hs).1]
    exact ⟨rfl, rfl, rfl, rfl⟩
  obtain ⟨h₁, h₂, h₃, h₄⟩ := hstatic
  refine ⟨by rw [h₁, h₂]; exact hall, by rw [h₁, h₃]; exact h.subSurfaces, fun k' q hq => ?_⟩
  rw [h₂] at hq
  rw [h₄]
  by_cases hkk : k' = k
  case pos => simp [hkk] at hq
  case neg => exact h.extensions k' q (by simpa [hkk] using hq)

-- The new subsurface is in no state yet.
theorem createSubSurface (h : Children s) (hv : Settled s) (hs : s.createSubSurface x y = .ok s') : Children s' := by
  have ha : AllLists ({ s with
      subSurfaces := Function.update s.subSurfaces s.nextSubSurface (some { surface := x, parent := y })
      nextSubSurface := s.nextSubSurface + 1 }
    |>.modifySurface x fun surface => { surface with handle := some s.nextSubSurface })
      (Lists.Sound s.subSurfaces s.extensions) := by
    refine AllLists.modifySurface (h.sound.of_eq rfl rfl) ?_ ?_
    exacts [fun _ _ => ⟨rfl, rfl⟩, fun _ => .inl rfl]
  have hv₁ : Settled ({ s with
      subSurfaces := Function.update s.subSurfaces s.nextSubSurface (some { surface := x, parent := y })
      nextSubSurface := s.nextSubSurface + 1 }
    |>.modifySurface x fun surface => { surface with handle := some s.nextSubSurface }) := by
    refine Settled.modifySurface (hv.of_surfaces rfl rfl rfl rfl rfl) ?_ ?_
    exacts [fun _ => rfl, fun _ => .inl rfl]
  have ⟨_, hv₂⟩ : Settled (State.modifySurface _ y fun surface => { surface with
      current := surface.current.addChild s.nextSubSurface, pending := surface.pending.addChild s.nextSubSurface }) :=
    hv₁.modifySurface (fun _ => rfl) (fun _ => .inl rfl)
  have hfresh {q : SurfaceId} {lists : Lists} (hl : Lists.Sound s.subSurfaces s.extensions q lists) :
      s.nextSubSurface ∉ lists.below ++ lists.above := fun hm => by
    have ⟨sub, hsub, _⟩ := hl.children _ hm
    exact (h.subSurfaces _ sub hsub).false
  have hold {q : SurfaceId} {lists : Lists} (hl : Lists.Sound s.subSurfaces s.extensions q lists) :
      Lists.Sound (Function.update s.subSurfaces s.nextSubSurface (some { surface := x, parent := y })) s.extensions q
        lists :=
    hl.update (hfresh hl)
  have hadd {state : SurfaceState} (hl : Lists.Sound s.subSurfaces s.extensions y state.lists) :
      Lists.Sound (Function.update s.subSurfaces s.nextSubSurface (some { surface := x, parent := y })) s.extensions y
        (state.addChild s.nextSubSurface).lists :=
    (hold hl).addChild (Function.update_self ..) rfl fun hm => hfresh hl (List.mem_append_right _ hm)
  have hall : AllLists s'
      (Lists.Sound (Function.update s.subSurfaces s.nextSubSurface (some { surface := x, parent := y })) s.extensions) := by
    rw [(hv₂.amend hs).1]
    exact ha.patch (fun _ _ _ => hold) (fun surface hsurface => ⟨hadd (ha _ _ (.current hsurface)),
      hadd (ha _ _ (.pending hsurface))⟩) (fun _ => rfl) (fun _ => hadd)
      fun halive z _ entries hc entry he hx => hold (ha _ _ (.cached halive hc he hx))
  have hstatic : s'.subSurfaces =
        Function.update s.subSurfaces s.nextSubSurface (some { surface := x, parent := y }) ∧
      s'.extensions = s.extensions ∧ s'.nextSubSurface = s.nextSubSurface + 1 ∧ s'.nextExtension = s.nextExtension := by
    rw [(hv₂.amend hs).1]
    exact ⟨rfl, rfl, rfl, rfl⟩
  obtain ⟨h₁, h₂, h₃, h₄⟩ := hstatic
  refine ⟨by rw [h₁, h₂]; exact hall, fun e sub hsub => ?_, fun k q hk => h₄ ▸ h.extensions k q (h₂ ▸ hk)⟩
  rw [h₃]
  rw [h₁] at hsub
  by_cases he : e = s.nextSubSurface
  case pos => exact he ▸ Nat.lt_succ_self _
  case neg => exact (h.subSurfaces e sub (by simpa [he] using hsub)).trans (Nat.lt_succ_self _)

theorem nextRoleGeneration (h : Children s) (hv : Settled s) (hs : s.nextRoleGeneration env x = .ok s') : Children s' :=
  h.of_lists (h.sound.nextRoleGeneration hv hs) (.nextRoleGeneration hv hs)

theorem getSubsurface (h : Children s) (hv : Settled s) (hs : s.getSubsurface env x parent = .ok s') :
    Children s' := by
  have ⟨surface, parentSurface, _, _, hs⟩ := getSubsurface_cases hs
  rcases hs with ⟨_, _, rfl⟩ | ⟨s₁, _, h₁, hs⟩
  case inl => exact h
  case inr =>
    have hrole : Settled (if surface.role.isNone then s.setSurfaceRole x .subSurface else s) ∧
        Children (if surface.role.isNone then s.setSurfaceRole x .subSurface else s) := by
      split
      case isTrue =>
        refine ⟨hv.modifySurface ?_ ?_, h.of_lists (h.sound.modifySurface ?_ ?_) (.modifySurface ?_)⟩
        exacts [fun _ => rfl, fun _ => .inl rfl, fun _ _ => ⟨rfl, rfl⟩, fun _ => .inl rfl, fun _ => rfl]
      case isFalse => exact ⟨hv, h⟩
    have hv₁ := hrole.1.nextRoleGeneration h₁
    have h₁ := hrole.2.nextRoleGeneration hrole.1 h₁
    rcases hs with ⟨_, rfl⟩ | ⟨_, main, _, ⟨_, rfl⟩ | ⟨_, hs⟩⟩
    · exact h₁
    · exact h₁
    · exact h₁.createSubSurface hv₁ hs

end Children

-- No other surface has cached a state of the parent that lists the subsurface.
def Removable (s : State) (e : SubSurfaceId) : Prop :=
  ∀ sub, s.subSurfaces e = some sub → (s.surfaces sub.parent).isSome → ∀ y ≠ sub.parent, ∀ entries,
    s.cachedAt y = some entries → ∀ entry ∈ entries, entry.surface = sub.parent → e ∉ entry.state.children

theorem removable_of_eq_true (hv : Settled s) (h : s.removable e) : Removable s e := by
  intro sub hsub hp y hy entries hc entry he hx
  simp only [State.removable, hsub, Option.all_some, Bool.or_eq_true, Option.isNone_iff_eq_none, Bool.not_eq_true'] at h
  cases h with
  | inl hnone => simp [hnone] at hp
  | inr h => simpa using not_cachedElsewhere hv h hy hc entry he hx

-- Objects may go, and what a surface has cached of others may only become less.
structure Shrinks (s s' : State) : Prop where
  alive       : ∀ q, (s'.surfaces q).isSome → (s.surfaces q).isSome
  subSurfaces : ∀ e sub', s'.subSurfaces e = some sub' →
    ∃ sub, s.subSurfaces e = some sub ∧ sub.surface = sub'.surface ∧ sub.parent = sub'.parent
  cached      : ∀ y entries', s'.cachedAt y = some entries' →
    ∃ entries, s.cachedAt y = some entries ∧ ∀ entry ∈ entries', entry.surface ≠ y → entry ∈ entries

namespace Shrinks

theorem refl : Shrinks s s :=
  ⟨fun _ h => h, fun _ sub h => ⟨sub, h, rfl, rfl⟩, fun _ entries h => ⟨entries, h, fun _ he _ => he⟩⟩

theorem trans {s₁ s₂ s₃ : State} (h : Shrinks s₁ s₂) (h' : Shrinks s₂ s₃) : Shrinks s₁ s₃ where
  alive q hq := h.alive q (h'.alive q hq)
  subSurfaces e sub hsub :=
    have ⟨sub', hsub', hx', hp'⟩ := h'.subSurfaces e sub hsub
    have ⟨sub'', hsub'', hx, hp⟩ := h.subSurfaces e sub' hsub'
    ⟨sub'', hsub'', hx.trans hx', hp.trans hp'⟩
  cached y entries hc :=
    have ⟨entries', hc', hm'⟩ := h'.cached y entries hc
    have ⟨entries'', hc'', hm⟩ := h.cached y entries' hc'
    ⟨entries'', hc'', fun entry he hx => hm entry (hm' entry he hx) hx⟩

theorem of_same (ht : SameTree s s') (hc : ∀ y entries, s'.cachedAt y = some entries → s.cachedAt y = some entries) :
    Shrinks s s' where
  alive _ hq := ht.isSome_eq ▸ hq
  subSurfaces _ _ hsub :=
    have ⟨sub', hsub', hx, hp⟩ := ht.symm.exists_sub hsub
    ⟨sub', hsub', hx, hp⟩
  cached y entries hy := ⟨entries, hc y entries hy, fun _ he _ => he⟩

theorem modifySurface {f : Surface → Surface} (hc : ∀ surface, (f surface).cached = surface.cached ∨
    (f surface).cached = none) : Shrinks s (s.modifySurface x f) := by
  refine ⟨fun q hq => ?_, fun _ sub h => ⟨sub, h, rfl, rfl⟩, fun y entries hy => ⟨entries, ?_, fun _ he _ => he⟩⟩
  · rw [modifySurface_surfaces] at hq
    split at hq
    case isTrue h => subst h; simpa using hq
    case isFalse => exact hq
  · rw [cachedAt_modifySurface] at hy
    split at hy
    case isTrue hyx =>
      subst hyx
      obtain ⟨surface, hs, hy⟩ := Option.bind_eq_some_iff.mp hy
      cases hc surface with
      | inl hc => simpa [State.cachedAt, hs, ← hc] using hy
      | inr hc => simp [hc] at hy
    case isFalse => exact hy

theorem amendAll {mutator : SurfaceState → SurfaceState} : Shrinks s (s.amendAll x mutator) where
  alive q hq := by
    simp only [State.amendAll, modifySurface_surfaces] at hq
    split at hq
    case isTrue h => subst h; simpa using hq
    case isFalse => exact hq
  subSurfaces _ sub h := ⟨sub, h, rfl, rfl⟩
  cached y entries hy := by
    have hy : (if y = x then (s.surfaces x).bind fun surface => surface.cached.map (·.map (·.amend x mutator))
        else s.cachedAt y) = some entries := cachedAt_modifySurface.symm.trans hy
    split at hy
    case isTrue hyx =>
      subst hyx
      obtain ⟨surface, hs, hy⟩ := Option.bind_eq_some_iff.mp hy
      obtain ⟨entries₀, h₀, rfl⟩ := Option.map_eq_some_iff.mp hy
      refine ⟨entries₀, by simp [State.cachedAt, hs, h₀], fun entry he hx => ?_⟩
      obtain ⟨entry₀, he₀, rfl⟩ := List.mem_map.mp he
      rw [TransactionEntry.amend_surface] at hx
      rwa [TransactionEntry.amend_of_ne hx]
    case isFalse => exact ⟨entries, hy, fun _ he _ => he⟩

theorem tryApplyFirst (hv : Settled s) (h : s.tryApplyFirst env x = .ok s') : Shrinks s s' := by
  refine of_same (.tryApplyFirst hv h) fun y entries hc => ?_
  have ⟨_, _, h⟩ := tryApplyFirst_cases h
  rcases h with ⟨_, rfl⟩ | ⟨t, _, h⟩
  · exact hc
  · have ⟨_, hv⟩ := hv
    have ⟨_, hn, _⟩ := hv.tryApply h
    exact (Valid.cachedAt_of_static hn.steps.static).symm.trans hc

theorem nextRoleGeneration (hv : Settled s) (h : s.nextRoleGeneration env x = .ok s') : Shrinks s s' := by
  refine .trans (.modifySurface ?_) (tryApplyFirst (hv.modifySurface ?_ ?_) h)
  exacts [fun _ => .inl rfl, fun _ => rfl, fun _ => .inl rfl]

theorem removeSurface : Shrinks s (s.removeSurface x) where
  alive q hq := by
    by_cases hqx : q = x
    case pos => simp [State.removeSurface, hqx] at hq
    case neg => simpa [State.removeSurface, hqx] using hq
  subSurfaces _ sub h := ⟨sub, h, rfl, rfl⟩
  cached y entries hy := by
    refine ⟨entries, ?_, fun _ he _ => he⟩
    by_cases hyx : y = x
    case pos => simp [State.cachedAt, State.removeSurface, hyx] at hy
    case neg => simpa [State.cachedAt, State.removeSurface, hyx] using hy

theorem removeFromParent (hv : Settled s) (h : s.removeFromParent e parent = .ok s') : Shrinks s s' := by
  rcases removeFromParent_cases h with ⟨_, rfl⟩ | ⟨_, h⟩
  · exact .refl
  · have ⟨_, hv'⟩ : Settled (s.modifySurface parent fun surface => { surface with
        current := surface.current.removeAllChild e, pending := surface.pending.removeAllChild e }) :=
      hv.modifySurface (fun _ => rfl) (fun _ => .inl rfl)
    rw [(hv'.amend h).1]
    refine .trans (.modifySurface ?_) .amendAll
    exact fun _ => .inl rfl

theorem releaseSurface (hv : Settled s) (h : s.releaseSurface env x = .ok s') : Shrinks s s' := by
  rcases releaseSurface_cases h with ⟨_, rfl⟩ | ⟨_, h⟩
  · exact .refl
  · refine .trans (.modifySurface ?_) (nextRoleGeneration (hv.modifySurface ?_ ?_) h)
    exacts [fun _ => .inr rfl, fun _ => rfl, fun _ => .inr rfl]

theorem destroySubSurface (hv : Settled s) (h : s.destroySubSurface env e = .ok s') : Shrinks s s' := by
  have ⟨sub, s₁, s₂, _, h₁, h₂, heq⟩ := destroySubSurface_cases h
  refine .trans (.trans (.removeFromParent hv h₁) (.releaseSurface (hv.removeFromParent h₁) h₂)) ?_
  rw [heq]
  refine ⟨fun _ hq => hq, fun e' sub' hsub' => ?_, fun _ entries hc => ⟨entries, hc, fun _ he _ => he⟩⟩
  by_cases he : e' = e
  case pos => simp [he] at hsub'
  case neg => exact ⟨sub', by simpa [he] using hsub', rfl, rfl⟩

end Shrinks

theorem Removable.of_shrinks (h : Removable s e) (hs : Shrinks s s') : Removable s' e := by
  intro sub' hsub' hp y hy entries hc entry he hx
  have ⟨sub, hsub, _, heq⟩ := hs.subSurfaces e sub' hsub'
  have ⟨entries', hc', hm⟩ := hs.cached y entries hc
  have hy : y ≠ sub.parent := heq ▸ hy
  have hx : entry.surface = sub.parent := hx.trans heq.symm
  exact h sub hsub (heq ▸ hs.alive _ hp) y hy entries' hc' entry (hm entry he fun hxy => hy (hxy.symm.trans hx)) hx

namespace Children

-- The subsurface has left all states before it is deleted.
theorem destroySubSurface (h : Children s) (hv : Settled s) (hr : Removable s e)
    (hs : s.destroySubSurface env e = .ok s') : Children s' := by
  have ⟨sub, s₁, s₂, hsub, h₁, h₂, heq⟩ := destroySubSurface_cases hs
  have hother {q : SurfaceId} {lists : Lists} (hl : Lists.Sound s.subSurfaces s.extensions q lists)
      (hq : q ≠ sub.parent) : e ∉ lists.below ++ lists.above := fun hm => by
    have ⟨sub', hsub', hp⟩ := hl.children e hm
    obtain rfl := Option.some.inj (hsub.symm.trans hsub')
    exact hq hp.symm
  have ha₁ : AllLists s₁ (Lists.Sound (Function.update s.subSurfaces e none) s.extensions) := by
    rcases removeFromParent_cases h₁ with ⟨hnone, rfl⟩ | ⟨hp, h₁⟩
    case inl =>
      refine h.sound.imp fun q lists hq hl => hl.update (hother hl ?_)
      rintro rfl
      simp [hnone] at hq
    case inr =>
      have ⟨_, hv₁⟩ : Settled (s.modifySurface sub.parent fun surface => { surface with
          current := surface.current.removeAllChild e, pending := surface.pending.removeAllChild e }) :=
        hv.modifySurface (fun _ => rfl) (fun _ => .inl rfl)
      have hall {state : SurfaceState} (hl : Lists.Sound s.subSurfaces s.extensions sub.parent state.lists) :
          Lists.Sound (Function.update s.subSurfaces e none) s.extensions sub.parent (state.removeAllChild e).lists :=
        have ⟨hl, hn⟩ := hl.removeAllChild; hl.update hn
      rw [(hv₁.amend h₁).1]
      refine h.sound.patch (fun q lists hq hl => hl.update (hother hl hq)) (fun surface hsurface =>
        ⟨hall (h.sound _ _ (.current hsurface)), hall (h.sound _ _ (.pending hsurface))⟩) (fun _ => rfl)
        (fun state hl => have ⟨hl, hn⟩ := hl.removeChild; hl.update hn) fun halive y hy entries hc entry he hx => ?_
      exact (h.sound _ _ (.cached halive hc he hx)).update (hr sub hsub hp y hy entries hc entry he hx)
  have hv₁ := hv.removeFromParent h₁
  have ht₁ := SameTree.removeFromParent hv h₁
  have ha₂ : AllLists s₂ (Lists.Sound (Function.update s.subSurfaces e none) s.extensions) := by
    rcases releaseSurface_cases h₂ with ⟨_, rfl⟩ | ⟨_, h₂⟩
    · exact ha₁
    · refine AllLists.nextRoleGeneration (ha₁.modifySurface ?_ ?_) (hv₁.modifySurface ?_ ?_) h₂
      exacts [fun _ _ => ⟨rfl, rfl⟩, fun _ => .inr rfl, fun _ => rfl, fun _ => .inr rfl]
  have ht₂ : SameTree (s₁.modifySurface sub.surface fun surface => { surface with handle := none, cached := none })
      s₂ := by
    rcases releaseSurface_cases h₂ with ⟨hnone, rfl⟩ | ⟨_, h₂⟩
    · rw [modifySurface_of_none hnone]
      exact .refl
    · refine .nextRoleGeneration (hv₁.modifySurface ?_ ?_) h₂
      exacts [fun _ => rfl, fun _ => .inr rfl]
  have hext : s₂.extensions = s.extensions := ht₂.extensions.1.trans ht₁.extensions.1
  rw [heq]
  refine ⟨AllLists.of_eq (ha₂.imp fun q lists _ hl => hl.mono (fun e' _ sub' hsub' => ?_) fun k _ q hk => ?_) rfl rfl,
    fun e' sub' hsub' => ?_, fun k q hk => ?_⟩
  · by_cases he : e' = e
    case pos => simp [he] at hsub'
    case neg =>
      have ⟨sub₁, hsub₁, _, hp₁⟩ := ht₁.exists_sub (by simpa [he] using hsub' : s.subSurfaces e' = some sub')
      have ⟨sub₂, hsub₂, _, hp₂⟩ := ht₂.exists_sub (show (s₁.modifySurface _ _).subSurfaces e' = some sub₁ from hsub₁)
      exact ⟨sub₂, by simpa [he] using hsub₂, hp₂.trans hp₁⟩
  · exact hext ▸ hk
  · by_cases he : e' = e
    case pos => simp [he] at hsub'
    case neg =>
      have ⟨sub₁, hsub₁, _⟩ := ht₂.symm.exists_sub (by simpa [he] using hsub' : s₂.subSurfaces e' = some sub')
      have ⟨sub₀, hsub₀, _⟩ := ht₁.symm.exists_sub hsub₁
      exact (h.subSurfaces e' sub₀ hsub₀).trans_eq (ht₂.next.trans ht₁.next).symm
  · exact (h.extensions k q (hext ▸ hk)).trans_eq (ht₂.extensions.2.trans ht₁.extensions.2).symm

theorem removeSurface (h : Children s) : Children (s.removeSurface x) :=
  ⟨h.sound.removeSurface, h.subSurfaces, h.extensions⟩

theorem destroySurface (h : Children s) (hv : Settled s)
    (hr : ∀ e sub, s.subSurfaces e = some sub → sub.surface = x → Removable s e)
    (hs : s.destroySurface env x = .ok s') : Children s' := by
  obtain ⟨s₁, h₁, hs⟩ := bind_eq_ok.mp hs
  have hv₀ : Settled (s.modifySurface x fun surface => { surface with tearingDown := true }) :=
    hv.modifySurface (fun _ => rfl) (fun _ => .inl rfl)
  have hv₁ := hv₀.tryApplyFirst h₁
  have hc₀ : Children (s.modifySurface x fun surface => { surface with tearingDown := true }) :=
    h.of_lists (h.sound.modifySurface (fun _ _ => ⟨rfl, rfl⟩) (fun _ => .inl rfl)) (.modifySurface fun _ => rfl)
  have hc₁ : Children s₁ := hc₀.of_lists (hc₀.sound.tryApplyFirst hv₀ h₁) (.tryApplyFirst hv₀ h₁)
  have hsh : Shrinks s s₁ := by
    refine .trans (.modifySurface ?_) (.tryApplyFirst hv₀ h₁)
    exact fun _ => .inl rfl
  refine (foldlM_preserves (fun s₂ => Settled s₂ ∧ Children s₂ ∧ Shrinks s s₂) (fun e _ s₂ s₃ ⟨hv₂, hc₂, hsh₂⟩ hs => ?_)
    ⟨hv₁.removeSurface, hc₁.removeSurface, hsh.trans .removeSurface⟩ hs).2.1
  split at hs
  case h_1 => exact pure_eq_ok.mp hs ▸ ⟨hv₂, hc₂, hsh₂⟩
  case h_2 sub hsub =>
    split at hs
    case isTrue hx =>
      have ⟨sub₀, hsub₀, hx₀, _⟩ := hsh₂.subSurfaces e sub hsub
      have hre := (hr e sub₀ hsub₀ (hx₀.trans hx)).of_shrinks hsh₂
      exact ⟨hv₂.destroySubSurface hs, hc₂.destroySubSurface hv₂ hre hs, hsh₂.trans (.destroySubSurface hv₂ hs)⟩
    case isFalse => exact pure_eq_ok.mp hs ▸ ⟨hv₂, hc₂, hsh₂⟩

theorem handle (h : Children s) (hv : Settled s) {event : Event} (he : s.enabled event) (hp : s.unreferenced event)
    (hs : s.handle env event = .ok s') : Children s' := by
  cases event
  case createSurface => exact pure_eq_ok.mp hs ▸ h.createSurface hv
  case addExtension => exact pure_eq_ok.mp hs ▸ h.addExtension
  case removeExtension k =>
    simp only [State.handle] at hs
    cases hx : s.extensions k <;> simp only [hx, Option.elim] at hs
    · exact pure_eq_ok.mp hs ▸ h
    · exact h.removeExtension hv hx hp hs
  case getSubsurface => exact h.getSubsurface hv hs
  case placeAbove => exact h.placeChild (fun hl hsub => hl.raiseChild hsub rfl) hs
  case placeBelow => exact h.placeChild (fun hl hsub => hl.lowerChild hsub rfl) hs
  case destroySubSurface => exact h.destroySubSurface hv (removable_of_eq_true hv hp) hs
  case destroySurface x =>
    refine h.destroySurface hv (fun e sub hsub hx => removable_of_eq_true hv ?_) hs
    have := List.all_eq_true.mp hp e (List.mem_range.mpr (h.subSurfaces e sub hsub))
    simpa [hsub, hx] using this
  case commitTransaction => simp [State.unreferenced] at hp
  all_goals exact h.of_lists (h.sound.handle hv hs trivial) (.handle hv he hs trivial)

theorem reachable (h : State.Reachable env (·.unreferenced ·) s) : Children s := by
  induction h
  case init => exact init
  case step hr he hp hs ih => exact ih.handle (Settled.reachable hr) he hp hs

end Children

end KWin

namespace KWin

abbrev Anchor.child (e : SubSurfaceId) : Anchor :=
  .surface (some e)

-- The surfaces from the lowest to the highest one, the parent among them.
def SurfaceState.stacking (state : SurfaceState) : List Anchor :=
  state.below.map .child ++ .parent :: state.above.map .child

namespace ParentSurface

variable {q : ParentSurface} {e child : SubSurfaceId} {anchor : Anchor} {offset : Nat}
  {atParent : SurfaceState → SurfaceState} {call : ChildCall} {q' : ParentSurface}

-- The pending lists have every child once, and nothing else.
def Complete (q : ParentSurface) : Prop :=
  ∀ e, (q.pending.below ++ q.pending.above).count e = if e ∈ q.children then 1 else 0

-- What the caller may expect of the answer to a call.
def Answered (q : ParentSurface) : ChildCall → Prop
  | .raiseChild e anchor =>
    match q.raiseChild e anchor with
    | (true, q') => ∃ lower higher,
      q.pending.stacking.erase (.child e) = lower ++ anchor :: higher ∧
        q'.pending.stacking = lower ++ anchor :: .child e :: higher
    | (false, q') => q'.pending.below = q.pending.below ∧ q'.pending.above = q.pending.above
  | .lowerChild e anchor =>
    match q.lowerChild e anchor with
    | (true, q') => ∃ lower higher,
      q.pending.stacking.erase (.child e) = lower ++ anchor :: higher ∧
        q'.pending.stacking = lower ++ .child e :: anchor :: higher
    | (false, q') => q'.pending.below = q.pending.below ∧ q'.pending.above = q.pending.above
  | _ => True

-- A child is placed at the parent or at another child.
def IsSibling (q : ParentSurface) (e : SubSurfaceId) (anchor : Anchor) : Prop :=
  anchor = .parent ∨ ∃ sibling ∈ q.children, sibling ≠ e ∧ anchor = .child sibling

def Anchored (q : ParentSurface) : ChildCall → Prop
  | .raiseChild e anchor | .lowerChild e anchor => q.IsSibling e anchor
  | _ => True

structure Stacked (q : ParentSurface) : Prop where
  nodup : q.children.Nodup
  perm  : (q.pending.below ++ q.pending.above).Perm q.children

theorem Stacked.complete (h : q.Stacked) : q.Complete := by
  intro e
  rw [h.perm.count_eq e]
  exact List.Nodup.count h.nodup

theorem Stacked.nodup_lists (h : q.Stacked) : (q.pending.below ++ q.pending.above).Nodup :=
  h.perm.nodup_iff.mpr h.nodup

theorem child_injective : Function.Injective Anchor.child := by
  intro e e' heq
  exact Option.some.inj (Anchor.surface.inj heq)

theorem perm_stacking {state : SurfaceState} {children : List SubSurfaceId} :
    state.stacking.Perm (.parent :: children.map .child) ↔ (state.below ++ state.above).Perm children := by
  rw [← List.map_perm_map_iff child_injective, List.map_append]
  constructor
  case mp => exact fun h => (List.perm_cons Anchor.parent).mp (List.perm_middle.symm.trans h)
  case mpr => exact fun h => List.perm_middle.trans (h.cons Anchor.parent)

theorem Stacked.addChild (h : q.Stacked) (hc : child ∉ q.children) : (q.addChild child).Stacked where
  nodup := h.nodup.append (List.nodup_singleton child) (List.disjoint_singleton.mpr hc)
  perm  := by
    have hperm := h.perm.append_right [child]
    rwa [List.append_assoc] at hperm

theorem Stacked.removeChild (h : q.Stacked) : (q.removeChild child).Stacked where
  nodup := h.nodup.erase child
  perm  := by
    have hperm := h.perm.filter (· != child)
    rw [List.filter_append, ← h.nodup.erase_eq_filter] at hperm
    simpa [ParentSurface.removeChild, SurfaceState.removeAllChild, bne, BEq.beq] using hperm

-- What is left of the lists while a child is on its way.
theorem Stacked.stacking_removeChild (h : q.Stacked) :
    (q.pending.removeChild e).stacking = q.pending.stacking.erase (.child e) := by
  have hdisjoint := List.disjoint_of_nodup_append h.nodup_lists
  have hmem {l : List SubSurfaceId} : Anchor.child e ∈ l.map Anchor.child ↔ e ∈ l :=
    List.mem_map_of_injective child_injective
  rw [SurfaceState.stacking, SurfaceState.stacking, SurfaceState.removeChild, List.map_erase child_injective,
    List.map_erase child_injective, List.erase_append]
  split
  case isTrue hb =>
    have ha := hdisjoint (hmem.mp hb)
    rw [List.erase_of_not_mem (mt hmem.mp ha)]
  case isFalse hb => rw [List.erase_of_not_mem hb, List.erase_cons_tail (by simp)]

theorem Stacked.mem_removeChild (h : q.Stacked) {a : SubSurfaceId} :
    a ∈ (q.pending.removeChild e).below ∨ a ∈ (q.pending.removeChild e).above ↔ a ∈ q.children ∧ a ≠ e := by
  have hnodup := List.nodup_append.mp h.nodup_lists
  rw [SurfaceState.removeChild, hnodup.1.mem_erase_iff, hnodup.2.1.mem_erase_iff, ← and_or_left, ← List.mem_append,
    h.perm.mem_iff, and_comm]

section

variable (h : q.Stacked)
include h

theorem Stacked.placeChild_sibling (ha : q.IsSibling e anchor) (ho : offset ≤ 1)
    (hparent : ∀ pending : SurfaceState, (atParent pending).stacking =
      pending.below.map .child ++ (Anchor.parent :: pending.above.map .child).insertIdx offset (.child e)) :
    ∃ q' lower higher, q.placeChild e anchor offset atParent = (true, q') ∧ q'.children = q.children ∧
      q.pending.stacking.erase (.child e) = lower ++ anchor :: higher ∧
        q'.pending.stacking = lower ++ (anchor :: higher).insertIdx offset (.child e) := by
  have hstacking := h.stacking_removeChild (e := e)
  cases ha with
  | inl hp =>
    subst hp
    exact ⟨_, _, _, rfl, rfl, hstacking.symm, hparent _⟩
  | inr ha =>
    have ⟨a, hchild, hne, heq⟩ := ha
    subst heq
    have hmem := h.mem_removeChild.mpr ⟨hchild, hne⟩
    rw [← hstacking]
    rw [placeChild]
    generalize q.pending.removeChild e = pending at hmem
    dsimp only [Option.bind_some]
    cases habove : pending.above.idxOf? a with
    | some i =>
      have ⟨l₁, l₂, hl, hinsert⟩ := ListMove.insertIdx_idxOf? habove
      refine ⟨_, pending.below.map .child ++ .parent :: l₁.map .child, l₂.map .child, rfl, rfl, ?_, ?_⟩
      · simp [SurfaceState.stacking, hl]
      · simp [SurfaceState.stacking, hinsert, List.map_insertIdx]
    | none =>
      have hbelow := hmem.resolve_right (List.idxOf?_eq_none_iff.mp habove)
      cases hidx : pending.below.idxOf? a with
      | none => exact absurd hbelow (List.idxOf?_eq_none_iff.mp hidx)
      | some i =>
        have ⟨l₁, l₂, hl, hinsert⟩ := ListMove.insertIdx_idxOf? hidx
        refine ⟨_, l₁.map .child, l₂.map .child ++ .parent :: pending.above.map .child, rfl, rfl, ?_, ?_⟩
        · simp [SurfaceState.stacking, hl]
        · cases Nat.le_one_iff_eq_zero_or_eq_one.mp ho with
          | inl ho =>
            have hinsert := hinsert 0 e
            rw [Nat.add_zero] at hinsert
            simp [SurfaceState.stacking, hinsert, ho]
          | inr ho => simp [SurfaceState.stacking, hinsert, ho]

-- The child is lost if it is placed at anything else.
theorem Stacked.placeChild_other (ha : ¬q.IsSibling e anchor) :
    q.placeChild e anchor offset atParent = (false, { q with pending := q.pending.removeChild e }) := by
  have ⟨hp, ha⟩ := not_or.mp ha
  cases anchor with
  | parent => exact absurd rfl hp
  | surface anchor =>
    have hnone : anchor.bind (q.pending.removeChild e).above.idxOf? = none ∧
        anchor.bind (q.pending.removeChild e).below.idxOf? = none := by
      cases anchor with
      | none => exact ⟨rfl, rfl⟩
      | some a =>
        have hmem : ¬(a ∈ q.children ∧ a ≠ e) := fun ⟨hc, hne⟩ => ha ⟨a, hc, hne, rfl⟩
        have ⟨hb, ha⟩ := not_or.mp (mt h.mem_removeChild.mp hmem)
        exact ⟨List.idxOf?_eq_none_iff.mpr ha, List.idxOf?_eq_none_iff.mpr hb⟩
    rw [placeChild]
    simp only [hnone]

theorem Stacked.of_placed {lower higher : List Anchor} (he : e ∈ q.children) (ho : offset ≤ 1)
    (hc : q'.children = q.children) (herase : q.pending.stacking.erase (.child e) = lower ++ anchor :: higher)
    (hplaced : q'.pending.stacking = lower ++ (anchor :: higher).insertIdx offset (.child e)) : q'.Stacked where
  nodup := hc ▸ h.nodup
  perm  := by
    have hold := perm_stacking.mpr h.perm
    have hmem : Anchor.child e ∈ q.pending.stacking :=
      hold.mem_iff.mpr (List.mem_cons_of_mem _ (List.mem_map_of_mem he))
    have hlen : offset ≤ (anchor :: higher).length := Nat.le_trans ho (Nat.succ_le_succ (Nat.zero_le _))
    rw [← perm_stacking, hc, hplaced]
    calc (lower ++ (anchor :: higher).insertIdx offset (.child e)).Perm (lower ++ .child e :: anchor :: higher) :=
          (List.perm_insertIdx _ _ hlen).append_left lower
      List.Perm _ (.child e :: (lower ++ anchor :: higher)) := List.perm_middle
      List.Perm _ q.pending.stacking := herase ▸ (List.perm_cons_erase hmem).symm
      List.Perm _ _ := hold

theorem Stacked.lost (he : e ∈ q.children) (hq : q' = { q with pending := q.pending.removeChild e }) :
    ¬q'.Complete ∧ ¬(q'.pending.below = q.pending.below ∧ q'.pending.above = q.pending.above) := by
  subst hq
  have hnone := mt (h.mem_removeChild (a := e)).mp fun hc => hc.2 rfl
  rw [← List.mem_append] at hnone
  constructor
  case left =>
    intro hc
    have hcount := hc e
    rw [List.count_eq_zero_of_not_mem hnone, if_pos he] at hcount
    cases hcount
  case right =>
    intro ⟨hb, ha⟩
    dsimp only at hb ha
    rw [hb, ha] at hnone
    exact hnone (h.perm.mem_iff.mpr he)

theorem Stacked.raiseChild (he : e ∈ q.children) :
    (q.Answered (.raiseChild e anchor) ↔ q.IsSibling e anchor) ∧
      ((q.raiseChild e anchor).2.Complete ↔ q.IsSibling e anchor) ∧
      (q.IsSibling e anchor → (q.raiseChild e anchor).2.Stacked) := by
  rw [Answered, ParentSurface.raiseChild]
  by_cases ha : q.IsSibling e anchor
  case pos =>
    have hparent (pending : SurfaceState) :
        ({ pending with above := e :: pending.above } : SurfaceState).stacking =
          pending.below.map .child ++ (Anchor.parent :: pending.above.map .child).insertIdx 1 (.child e) := rfl
    have ⟨q', lower, higher, hq, hc, herase, hplaced⟩ := h.placeChild_sibling ha (Nat.le_refl 1) hparent
    have hstacked := h.of_placed he (Nat.le_refl 1) hc herase hplaced
    simp only [hq]
    exact ⟨iff_of_true ⟨lower, higher, herase, hplaced⟩ ha, iff_of_true hstacked.complete ha, fun _ => hstacked⟩
  case neg =>
    have ⟨hc, hn⟩ := h.lost he rfl
    rw [h.placeChild_other ha]
    exact ⟨iff_of_false hn ha, iff_of_false hc ha, fun h => absurd h ha⟩

theorem Stacked.lowerChild (he : e ∈ q.children) :
    (q.Answered (.lowerChild e anchor) ↔ q.IsSibling e anchor) ∧
      ((q.lowerChild e anchor).2.Complete ↔ q.IsSibling e anchor) ∧
      (q.IsSibling e anchor → (q.lowerChild e anchor).2.Stacked) := by
  rw [Answered, ParentSurface.lowerChild]
  by_cases ha : q.IsSibling e anchor
  case pos =>
    have hparent (pending : SurfaceState) :
        ({ pending with below := pending.below ++ [e] } : SurfaceState).stacking =
          pending.below.map .child ++ (Anchor.parent :: pending.above.map .child).insertIdx 0 (.child e) := by
      simp [SurfaceState.stacking]
    have ⟨q', lower, higher, hq, hc, herase, hplaced⟩ := h.placeChild_sibling ha (Nat.zero_le 1) hparent
    have hstacked := h.of_placed he (Nat.zero_le 1) hc herase hplaced
    simp only [hq]
    exact ⟨iff_of_true ⟨lower, higher, herase, hplaced⟩ ha, iff_of_true hstacked.complete ha, fun _ => hstacked⟩
  case neg =>
    have ⟨hc, hn⟩ := h.lost he rfl
    rw [h.placeChild_other ha]
    exact ⟨iff_of_false hn ha, iff_of_false hc ha, fun h => absurd h ha⟩

theorem Stacked.step (hs : q.step call = some q') :
    (q.Answered call ↔ q.Anchored call) ∧ (q'.Complete ↔ q.Anchored call) ∧ (q.Anchored call → q'.Stacked) := by
  cases call <;> simp only [ParentSurface.step, Option.ite_none_left_eq_some, Option.ite_none_right_eq_some,
    Option.some.injEq] at hs
  case addChild child =>
    have ⟨hc, hs⟩ := hs
    have hstacked := hs ▸ h.addChild hc
    exact ⟨Iff.rfl, iff_of_true hstacked.complete trivial, fun _ => hstacked⟩
  case removeChild child =>
    have ⟨_, hs⟩ := hs
    have hstacked := hs ▸ h.removeChild
    exact ⟨Iff.rfl, iff_of_true hstacked.complete trivial, fun _ => hstacked⟩
  case raiseChild e anchor => exact hs.2 ▸ h.raiseChild hs.1
  case lowerChild e anchor => exact hs.2 ▸ h.lowerChild hs.1

end

theorem stacked_empty : ({} : ParentSurface).Stacked where
  nodup := List.nodup_nil
  perm  := .nil

theorem always_stacked_iff (calls : List ChildCall) :
    (Machine.Always step Complete {} calls ∧ Machine.EachStep step Answered {} calls) ↔
      Machine.EachStep step Anchored {} calls := by
  have hcomplete : Machine.Always step Complete {} calls ↔ Machine.EachStep step Anchored {} calls :=
    Machine.Always.iff_eachStep stacked_empty Stacked.complete fun h hs => (h.step hs).2
  have hanswered : Machine.EachStep step Answered {} calls ↔ Machine.EachStep step Anchored {} calls :=
    Machine.eachStep_iff stacked_empty fun h hs => ⟨(h.step hs).1, (h.step hs).2.2⟩
  rw [hcomplete, hanswered, and_self]

-- A subsurface that is to be raised above itself is lost.
theorem not_always_stacked : ¬∀ calls,
    Machine.Always step Complete {} calls ∧ Machine.EachStep step Answered {} calls := by
  intro h
  have hlost := ((h [.addChild 0, .raiseChild 0 (.child 0)]).1.2 _ rfl).2 _ rfl
  exact absurd (hlost 0) (by decide)

end ParentSurface

end KWin
