import PlasmaModel.Lib.Runs
import PlasmaModel.Scene.Items

namespace KWin.Items

open Function Transform Forest

variable {T : Type} {s s' : Items T} {i p : Nat} {loose loose' stale : Nat → Prop} {l : List Nat}

-- Parents and children agree, except about the items that are loose.
structure Linked (s : Items T) (loose : Nat → Prop) : Prop where
  mem_iff : ∀ {c p}, c ∈ s.childItems p ↔ s.parentItem c = some p ∧ ¬loose c
  nodup   : ∀ p, (s.childItems p).Nodup
  lt      : ∀ c p, s.parentItem c = some p → p < s.count
  acyclic : Acyclic s.parentItem

namespace Linked

noncomputable def height (s : Items T) : Nat → Nat :=
  rank s.parentItem (Finset.range s.count)

theorem height_lt (h : Linked s loose) (c p : Nat) (hp : s.parentItem p = some c) : height s c < height s p :=
  rank_lt h.acyclic hp (Finset.mem_range.mpr (h.lt p c hp))

theorem height_le (s : Items T) (c : Nat) : height s c ≤ s.count :=
  (rank_le ..).trans_eq (Finset.card_range _)

theorem parentItem (h : Linked s loose) (p c : Nat) (hc : c ∈ s.childItems p) : s.parentItem c = some p :=
  (h.mem_iff.mp hc).1

theorem congr (h : Linked s loose) (hl : ∀ c p, s.parentItem c = some p → (loose c ↔ loose' c)) : Linked s loose' :=
  { h with mem_iff := fun {c p} => h.mem_iff.trans (and_congr_right fun hc => not_congr (hl c p hc)) }

theorem withChildItems (h : Linked s loose) (hn : l.Nodup)
    (hl : ∀ c, c ∈ l ↔ s.parentItem c = some p ∧ ¬loose' c)
    (ho : ∀ c q, q ≠ p → s.parentItem c = some q → (loose c ↔ loose' c)) : Linked (s.withChildItems p l) loose' where
  mem_iff {c q} := by
    simp only [Items.withChildItems, markSortedChildItemsDirty]
    by_cases hq : q = p
    case pos =>
      rw [hq, update_self]
      exact hl c
    case neg =>
      rw [update_of_ne hq, h.mem_iff]
      exact and_congr_right fun hc => not_congr (ho c q hq hc)
  nodup q := by
    simp only [Items.withChildItems, markSortedChildItemsDirty]
    by_cases hq : q = p
    case pos =>
      rw [hq, update_self]
      exact hn
    case neg =>
      rw [update_of_ne hq]
      exact h.nodup q
  lt := h.lt
  acyclic := h.acyclic

-- What the items below a given one derive from those above them.
theorem push_right {β : Type} [DecidableEq β] {derive : (Nat → β) → Nat → β} {Needs Right : (Nat → β) → Nat → Prop}
    (pushes : Pushes s.parentItem derive Needs Right) (h : Linked s loose) (hl : ∀ j, loose j → j = i) (lazy : Bool)
    {v : Nat → β} (hn : Needs v i) (hr : ∀ j, j ≠ i → Right v j) (j : Nat) :
    Right (push s.childItems derive lazy (s.count + 1) i v) j := by
  have hdown : ∀ b c, height s i ≤ height s b → s.parentItem c = some b → c ∈ s.childItems b := by
    intro b c hb hc
    have hlt := h.height_lt b c hc
    exact h.mem_iff.mpr ⟨hc, fun hloose => absurd (hl c hloose ▸ hlt) (not_lt.mpr hb)⟩
  have hright : ∀ b, ¬False → b ≠ i → Right v b := fun b _ => hr b
  exact (pushes.push_right h.parentItem h.height_lt (height_le s) hdown (by omega) hn hright).1 j id

end Linked

def Ordered (s : Items T) (i : Nat) : Prop :=
  ∀ l, s.sortedChildItems i = some l → l = s.stableSort (s.childItems i)

theorem Ordered.withChildItems (h : ∀ j, s.Ordered j) (j : Nat) : (s.withChildItems p l).Ordered j := by
  intro l' hl'
  simp only [Items.withChildItems, markSortedChildItemsDirty] at hl' ⊢
  by_cases hj : j = p
  case pos => simp [hj] at hl'
  case neg =>
    rw [update_of_ne hj] at hl' ⊢
    exact h j l' hl'

def Shown (s : Items T) (i : Nat) : Prop :=
  s.effectiveVisible i = s.computeEffectiveVisibility s.effectiveVisible i

def Together (s : Items T) (i : Nat) : Prop :=
  ∀ p, s.parentItem i = some p → s.scene i = s.scene p

theorem Linked.shown (h : Linked s loose) (hl : ∀ j, loose j → j = i) (hv : ∀ j, j ≠ i → s.Shown j) (j : Nat) :
    (s.updateEffectiveVisibility i).Shown j := by
  have hd : ∀ (v w : Nat → Bool) a, (∀ p, s.parentItem a = some p → v p = w p) →
      s.computeEffectiveVisibility v a = s.computeEffectiveVisibility w a := by
    intro v w a hvw
    unfold computeEffectiveVisibility
    cases hp : s.parentItem a
    case none => rfl
    case some p => simp only [Option.all_some, hvw p hp]
  exact h.push_right (.of_above h.height_lt hd) hl true trivial hv j

theorem Linked.together (h : Linked s loose) (hl : ∀ j, loose j → j = i) {scene : Option Nat}
    (hs : ∀ p, s.parentItem i = some p → s.scene p = scene) (ht : ∀ j, j ≠ i → s.Together j) (j : Nat) :
    (s.setScene i scene).Together j :=
  h.push_right (.const h.height_lt scene) hl true hs ht j

-- Items with the same `z` stay in the order of the children.
structure StablySorted (z : Nat → Int) (items children : List Nat) : Prop where
  perm   : items.Perm children
  sorted : items.Pairwise fun a b => z a ≤ z b
  stable : ∀ k, items.filter (z · = k) = children.filter (z · = k)

theorem stablySorted_stableSort (s : Items T) (children : List Nat) :
    StablySorted s.z (s.stableSort children) children := by
  have perm : (s.stableSort children).Perm children := List.perm_insertionSort ..
  have total : Std.Total fun a b => s.z a ≤ s.z b := ⟨fun a b => le_total (s.z a) (s.z b)⟩
  have trans : IsTrans Nat fun a b => s.z a ≤ s.z b := ⟨fun a b c => le_trans⟩
  refine ⟨perm, List.pairwise_insertionSort _ children, fun k => ?_⟩
  have hsub : (children.filter (s.z · = k)).Sublist (s.stableSort children) := by
    refine List.sublist_insertionSort (List.pairwise_of_forall_mem_list fun a ha b hb => ?_) List.filter_sublist
    simp only [List.mem_filter, decide_eq_true_iff] at ha hb
    exact (ha.2.trans hb.2.symm).le
  have hfilter := hsub.filter (s.z · = k)
  rw [List.filter_filter] at hfilter
  simp only [Bool.and_self] at hfilter
  exact (hfilter.eq_of_length (perm.filter _).length_eq.symm).symm

variable [Transform T]

theorem localTransform_eq (s : Items T) (i : Nat) :
    s.localTransform i = s.transform i * fromTranslate (s.position i) := by
  unfold localTransform
  split_ifs with h
  case pos => rw [h, fromTranslate_zero, mul_one]
  case neg => rfl

def Bounded (s : Items T) (i : Nat) : Prop :=
  RectF.Same (s.boundingRect i) (s.childrenUnion s.boundingRect i)

def Composed (s : Items T) (i : Nat) : Prop :=
  s.itemToSceneTransform i = s.toScene s.itemToSceneTransform i

theorem Bounded.withChildItems {j : Nat} (h : s.Bounded j) (hj : j ≠ p) : (s.withChildItems p l).Bounded j := by
  have hc : update s.childItems p l j = s.childItems j := update_of_ne hj ..
  have hunion : (s.withChildItems p l).childrenUnion s.boundingRect j = s.childrenUnion s.boundingRect j := by
    unfold childrenUnion
    exact congrArg (List.foldl _ _) hc
  unfold Bounded at h
  rwa [← hunion] at h

namespace Linked

theorem bounded (h : Linked s loose) (hb : ∀ j, j ≠ i → s.Bounded j) (j : Nat) :
    (s.updateBoundingRect i).Bounded j := by
  have hd : ∀ (v w : Nat → RectF) p, (∀ c ∈ s.childItems p, v c = w c) → s.childrenUnion v p = s.childrenUnion w p :=
    fun v w p hvw => List.foldl_ext _ _ _ fun r c hc => by simp only [boundsInParent, hvw c hc]
  exact pull_right RectF.same_refl h.parentItem hd h.height_lt (Nat.lt_succ_of_le (height_le s i)) hb j

end Linked

-- What the caches hold, except for what the items that are loose or stale have still to be told.
structure Coherent (s : Items T) (loose stale : Nat → Prop) : Prop where
  linked   : Linked s loose
  bounded  : ∀ i, s.Bounded i
  ordered  : ∀ i, s.Ordered i
  composed : ∀ i, ¬stale i → s.Composed i
  shown    : ∀ i, ¬stale i → s.Shown i
  together : ∀ i, ¬stale i → s.Together i

abbrev Valid (s : Items T) : Prop :=
  Coherent s (fun _ => False) fun _ => False

theorem Coherent.removeChild (h : Valid s) (hp : s.parentItem i = some p) :
    Coherent (s.removeChild p i) (· = i) (· = i) := by
  have linked : Linked (s.withChildItems p ((s.childItems p).erase i)) (· = i) := by
    apply h.linked.withChildItems ((h.linked.nodup p).erase i)
    · intro c
      rw [(h.linked.nodup p).mem_erase_iff, h.linked.mem_iff]
      tauto
    · exact fun c q hq hc => ⟨False.elim, fun hci => hq (Option.some.inj ((hci ▸ hc).symm.trans hp))⟩
  exact {
    linked   := { linked with }
    bounded  := linked.bounded fun j hj => (h.bounded j).withChildItems hj
    ordered  := Ordered.withChildItems h.ordered
    composed := fun j _ => h.composed j id
    shown    := fun j _ => h.shown j id
    together := fun j _ => h.together j id
  }

theorem Coherent.addChild (h : Coherent s (· = i) stale) (hp : s.parentItem i = some p) :
    Coherent (s.addChild p i) (fun _ => False) stale := by
  have linked : Linked (s.withChildItems p (s.childItems p ++ [i])) fun _ => False := by
    apply h.linked.withChildItems
    · rw [List.nodup_append']
      refine ⟨h.linked.nodup p, List.nodup_singleton i, ?_⟩
      rw [List.disjoint_singleton, h.linked.mem_iff]
      exact fun hi => hi.2 rfl
    · intro c
      rw [List.mem_append, h.linked.mem_iff, List.mem_singleton]
      by_cases hci : c = i
      case pos => simp [hci, hp]
      case neg => simp [hci]
    · exact fun c q hq hc => ⟨fun hci => hq (Option.some.inj ((hci ▸ hc).symm.trans hp)), False.elim⟩
  exact {
    linked   := { linked with }
    bounded  := linked.bounded fun j hj => (h.bounded j).withChildItems hj
    ordered  := Ordered.withChildItems h.ordered
    composed := h.composed
    shown    := h.shown
    together := h.together
  }

-- The parent of a loose item changes, and the item and what is below it join the scene of the new one.
theorem Coherent.joins (h : Coherent s (· = i) (· = i)) {item : Option Nat}
    (hi : ∀ p, item = some p → p < s.count ∧ ¬AboveOrSelf s.parentItem p i) :
    Coherent (setScene { s with parentItem := update s.parentItem i item } i (item.elim none s.scene)) (· = i) (· = i) ∧
      ∀ j, (setScene { s with parentItem := update s.parentItem i item } i (item.elim none s.scene)).Together j := by
  have hparent : ∀ {c}, c ≠ i → update s.parentItem i item c = s.parentItem c := fun hc => update_of_ne hc ..
  have linked : Linked { s with parentItem := update s.parentItem i item } (· = i) :=
    { mem_iff := fun {c p} => by
        rw [h.linked.mem_iff]
        exact and_congr_left fun hc => by simp only [hparent hc]
      nodup   := h.linked.nodup
      lt      := fun c p hc => by
        by_cases hci : c = i
        case pos =>
          simp only [hci, update_self] at hc
          exact (hi p hc).1
        case neg => exact h.linked.lt c p (hparent hci ▸ hc)
      acyclic := by
        cases item with
        | some p => exact h.linked.acyclic.update (hi p rfl).2
        | none =>
          refine h.linked.acyclic.mono fun c p hc => ?_
          by_cases hci : c = i
          case pos => simp [hci] at hc
          case neg => exact hparent hci ▸ hc }
  have hscene : ∀ p, update s.parentItem i item i = some p → s.scene p = item.elim none s.scene := by
    intro p hp
    rw [update_self] at hp
    rw [hp]
    rfl
  have together := linked.together (fun _ => id) hscene fun j hj p hp => h.together j hj p (hparent hj ▸ hp)
  refine ⟨?_, together⟩
  exact {
    linked   := { linked with }
    bounded  := h.bounded
    ordered  := h.ordered
    composed := fun j hj => by
      have hc := h.composed j hj
      simp only [Composed, toScene, setScene, hparent hj] at hc ⊢
      exact hc
    shown    := fun j hj => by
      have hc := h.shown j hj
      simp only [Shown, computeEffectiveVisibility, setScene, hparent hj] at hc ⊢
      exact hc
    together := fun j _ => together j
  }

theorem Valid.setVisible (h : Valid s) (visible : Bool) : Valid (s.setVisible i visible) := by
  unfold Items.setVisible
  split_ifs
  case neg => exact h
  have hv : ∀ j, j ≠ i → Shown { s with explicitVisible := Function.update s.explicitVisible i visible } j := by
    intro j hj
    have hs := h.shown j id
    simp only [Shown, computeEffectiveVisibility, update_of_ne hj] at hs ⊢
    exact hs
  have linked : Linked { s with explicitVisible := Function.update s.explicitVisible i visible } fun _ => False :=
    { h.linked with }
  exact { h with
    linked := { linked with }
    shown  := fun j _ => linked.shown (fun _ => False.elim) hv j }

-- The bounding rectangle of the parent is all that depends on where a child is in it.
theorem Linked.updateParentBoundingRect (h : Linked s fun _ => False)
    (hb : ∀ j, s.parentItem i ≠ some j → s.Bounded j) (ho : ∀ j, s.Ordered j) (hc : ∀ j, s.Composed j)
    (hs : ∀ j, s.Shown j) (ht : ∀ j, s.Together j) : Valid (s.updateParentBoundingRect i) := by
  unfold Items.updateParentBoundingRect
  cases hp : s.parentItem i
  case none => exact ⟨h, fun j => hb j (by simp [hp]), ho, fun j _ => hc j, fun j _ => hs j, fun j _ => ht j⟩
  case some p =>
    have bounded := h.bounded fun j hj => hb j fun hpj => hj (Option.some.inj (hpj.symm.trans hp))
    exact ⟨{ h with }, bounded, ho, fun j _ => hc j, fun j _ => hs j, fun j _ => ht j⟩

theorem Valid.setSize (h : Valid s) (size : SizeF) : Valid (s.setSize i size) := by
  unfold Items.setSize
  split_ifs
  case neg => exact h
  have linked : Linked { s with size := Function.update s.size i size } fun _ => False := { h.linked with }
  have hb : ∀ j, j ≠ i → Bounded { s with size := Function.update s.size i size } j := by
    intro j hj
    have hbj := h.bounded j
    simp only [Bounded, childrenUnion, rect, update_of_ne hj] at hbj ⊢
    exact hbj
  exact { h with
    linked  := { linked with }
    bounded := linked.bounded hb }

theorem Valid.setZ (h : Valid s) (z : Int) : Valid (s.setZ i z) := by
  unfold Items.setZ
  split_ifs
  case pos => exact h
  have ho : ∀ j l, s.parentItem i ≠ some j → s.sortedChildItems j = some l →
      l = stableSort { s with z := Function.update s.z i z } (s.childItems j) := by
    intro j l hj hl
    have hz : ∀ a ∈ s.childItems j, Function.update s.z i z a = s.z a := by
      intro a ha
      have hai : a ≠ i := fun hai => hj (hai ▸ h.linked.parentItem j a ha)
      exact update_of_ne hai ..
    have hsort := List.map_insertionSort (fun a b => s.z a ≤ s.z b)
      (fun a b => Function.update s.z i z a ≤ Function.update s.z i z b) id (s.childItems j)
      fun a ha b hb => by rw [id, id, hz a ha, hz b hb]
    rw [List.map_id, List.map_id] at hsort
    exact (h.ordered j l hl).trans hsort
  dsimp only
  cases hp : s.parentItem i
  case none => exact { h with linked := { h.linked with }, ordered := fun j l => ho j l (by simp [hp]) }
  case some p =>
    refine { h with linked := { h.linked with }, ordered := fun j l hl => ?_ }
    simp only [Option.elim, markSortedChildItemsDirty] at hl
    by_cases hj : j = p
    case pos => simp [hj] at hl
    case neg =>
      rw [update_of_ne hj] at hl
      exact ho j l (fun hpj => hj (Option.some.inj (hpj.symm.trans hp))) hl

theorem Valid.reordered (h : Valid s) (hl : l.Perm (s.childItems p)) : Valid (s.withChildItems p l) where
  linked := by
    apply h.linked.withChildItems (hl.nodup_iff.mpr (h.linked.nodup p))
    · exact fun c => hl.mem_iff.trans h.linked.mem_iff
    · exact fun _ _ _ _ => Iff.rfl
  bounded j := by
    by_cases hj : j = p
    case neg => exact (h.bounded j).withChildItems hj
    case pos =>
      have hchildren : (s.withChildItems p l).childItems j = l := by rw [hj]; exact update_self ..
      have hsame : RectF.Same (s.childrenUnion s.boundingRect j)
          ((s.withChildItems p l).childrenUnion s.boundingRect j) := by
        unfold childrenUnion
        rw [hchildren]
        exact RectF.same_foldl_united (hj ▸ hl.symm)
      exact (h.bounded j).trans hsame
  ordered      := Ordered.withChildItems h.ordered
  composed j _ := h.composed j id
  shown j _    := h.shown j id
  together j _ := h.together j id

theorem Valid.stackBefore (h : Valid s) (sibling : Option Nat) : Valid (s.stackBefore i sibling) := by
  unfold Items.stackBefore
  split
  case h_2 => exact h
  case h_1 sibling p hp =>
    dsimp only
    split_ifs with hi hn hlt
    · exact h
    · exact h
    all_goals
      have ⟨hi, hne⟩ := not_or.mp hi
      have hself := List.idxOf_lt_length_iff.mpr (h.linked.mem_iff.mpr ⟨not_not.mp hi, id⟩)
      have hsibling := List.idxOf_lt_length_iff.mpr (h.linked.mem_iff.mpr ⟨hp, id⟩)
      exact h.reordered (ListMove.moveIdx_perm (by omega))

theorem Valid.stackAfter (h : Valid s) (sibling : Option Nat) : Valid (s.stackAfter i sibling) := by
  unfold Items.stackAfter
  split
  case h_2 => exact h
  case h_1 sibling p hp =>
    dsimp only
    split_ifs with hi hn hlt
    · exact h
    · exact h
    all_goals
      have ⟨hi, hne⟩ := not_or.mp hi
      have hself := List.idxOf_lt_length_iff.mpr (h.linked.mem_iff.mpr ⟨not_not.mp hi, id⟩)
      have hsibling := List.idxOf_lt_length_iff.mpr (h.linked.mem_iff.mpr ⟨hp, id⟩)
      exact h.reordered (ListMove.moveIdx_perm (by omega))

theorem Valid.getSortedChildItems (h : Valid s) (i : Nat) :
    s.getSortedChildItems i = s.stableSort (s.childItems i) := by
  unfold Items.getSortedChildItems
  cases hs : s.sortedChildItems i
  case none => rfl
  case some l => exact h.ordered i l hs

theorem Valid.sortChildItems (h : Valid s) : Valid (s.sortChildItems i) := by
  refine { h with linked := { h.linked with }, ordered := fun j l hl => ?_ }
  simp only [Items.sortChildItems] at hl
  by_cases hj : j = i
  case pos =>
    rw [hj, update_self] at hl
    rw [hj]
    exact (Option.some.inj hl).symm.trans (h.getSortedChildItems i)
  case neg =>
    rw [update_of_ne hj] at hl
    exact h.ordered j l hl

theorem valid_constructed (count : Nat) (scene : Nat → Option Nat) : Valid (constructed count scene : Items T) where
  linked :=
    { mem_iff := by simp [constructed]
      nodup   := fun _ => List.nodup_nil
      lt      := fun _ _ h => by cases h
      acyclic := fun a ha => by
        have ⟨_, h, _⟩ := Relation.TransGen.head'_iff.mp ha
        cases h }
  bounded _ := .inl rfl
  ordered _ _ h := by cases h
  composed i _ := by simp [Composed, toScene, localTransform, constructed]
  shown _ _ := rfl
  together _ _ _ h := by cases h

theorem Valid.exists_chain (h : Valid s) (i : Nat) : ∃ chain, Chain s.parentItem i chain ∧
    s.itemToSceneTransform i = (chain.map fun a => s.transform a * fromTranslate (s.position a)).prod ∧
    s.effectiveVisible i = chain.all s.explicitVisible ∧ ∀ root ∈ chain.getLast?, s.scene i = s.scene root := by
  have ⟨chain, hchain⟩ := Forest.exists_chain h.linked.acyclic
    (fun a b hab => Finset.mem_range.mpr (h.linked.lt a b hab)) i
  refine ⟨chain, hchain, ?_⟩
  induction hchain with
  | @top i hi =>
    have hc := h.composed i id
    have hs := h.shown i id
    simp only [Composed, toScene, Shown, computeEffectiveVisibility, hi, localTransform_eq] at hc hs
    simp [hc, hs]
  | @cons i p chain hi hp ih =>
    have hc := h.composed i id
    have hs := h.shown i id
    simp only [Composed, toScene, Shown, computeEffectiveVisibility, hi, localTransform_eq] at hc hs
    have ⟨hcp, hsp, htp⟩ := ih
    refine ⟨?_, ?_, fun root hroot => ?_⟩
    · rw [hc, hcp, List.map_cons, List.prod_cons]
    · rw [hs, Option.all_some, hsp, List.all_cons]
    · have hlast : (i :: chain).getLast? = chain.getLast? := by cases hp <;> rfl
      exact (h.together i id p hi).trans (htp root (hlast ▸ hroot))

variable [DecidableEq T]

theorem Linked.composed (h : Linked s loose) (hl : ∀ j, loose j → j = i) (hc : ∀ j, j ≠ i → s.Composed j) (j : Nat) :
    (s.updateItemToSceneTransform i).Composed j := by
  have hd : ∀ (v w : Nat → T) a, (∀ p, s.parentItem a = some p → v p = w p) → s.toScene v a = s.toScene w a := by
    intro v w a hvw
    unfold toScene
    cases hp : s.parentItem a
    case none => rfl
    case some p => simp only [hvw p hp]
  exact h.push_right (.of_above h.height_lt hd) hl false trivial hc j

theorem Coherent.update (h : Coherent s loose stale) (hl : ∀ j, loose j → j = i) (hs : ∀ j, stale j → j = i)
    (ht : ∀ j, s.Together j) :
    Coherent ((s.updateItemToSceneTransform i).updateEffectiveVisibility i) loose fun _ => False where
  linked       := { h.linked with }
  bounded      := h.bounded
  ordered      := h.ordered
  composed j _ := h.linked.composed hl (fun j hj => h.composed j (mt (hs j) hj)) j
  shown j _    := h.linked.shown hl (fun j hj => h.shown j (mt (hs j) hj)) j
  together j _ := ht j

theorem Valid.setParentItem (h : Valid s) {item : Option Nat}
    (hi : ∀ p, item = some p → p < s.count ∧ ¬AboveOrSelf s.parentItem p i) :
    Valid (s.setParentItem i item) := by
  unfold Items.setParentItem
  split_ifs
  case pos => exact h
  have hremoved : Coherent ((s.parentItem i).elim s fun p => s.removeChild p i) (· = i) (· = i) := by
    cases hp : s.parentItem i
    case none =>
      have hloose : ∀ c q, s.parentItem c = some q → (False ↔ c = i) :=
        fun c q hc => ⟨False.elim, fun hci => by rw [hci, hp] at hc; cases hc⟩
      exact { h with
        linked   := h.linked.congr hloose
        composed := fun j _ => h.composed j id
        shown    := fun j _ => h.shown j id
        together := fun j _ => h.together j id }
    case some p => exact h.removeChild hp
  have hsame : ((s.parentItem i).elim s fun p => s.removeChild p i).parentItem = s.parentItem ∧
      ((s.parentItem i).elim s fun p => s.removeChild p i).count = s.count := by
    cases s.parentItem i <;> exact ⟨rfl, rfl⟩
  rw [← hsame.1, ← hsame.2] at hi
  have ⟨hjoined, htogether⟩ := hremoved.joins hi
  dsimp only
  cases item with
  | none =>
    have hloose : ∀ c q, Function.update ((s.parentItem i).elim s fun p => s.removeChild p i).parentItem i none c =
        some q → (c = i ↔ False) :=
      fun c q hc => ⟨fun hci => by simp [hci] at hc, False.elim⟩
    exact Coherent.update { hjoined with linked := hjoined.linked.congr hloose } (fun _ => False.elim) (fun _ => id)
      htogether
  | some p => exact (hjoined.addChild (update_self ..)).update (fun _ => False.elim) (fun _ => id) htogether

theorem Valid.moved (h : Valid s) {position : Nat → PointF} {transform : Nat → T}
    (hp : ∀ j, j ≠ i → position j = s.position j) (ht : ∀ j, j ≠ i → transform j = s.transform j) :
    Valid (updateParentBoundingRect (updateItemToSceneTransform { s with position, transform } i) i) := by
  have linked : Linked { s with position, transform } fun _ => False := { h.linked with }
  have hc : ∀ j, j ≠ i → Composed { s with position, transform } j := by
    intro j hj
    have hc := h.composed j id
    simp only [Composed, toScene, localTransform, hp j hj, ht j hj] at hc ⊢
    exact hc
  have linked' : Linked (updateItemToSceneTransform { s with position, transform } i) fun _ => False := { linked with }
  have hb : ∀ j, s.parentItem i ≠ some j →
      Bounded (updateItemToSceneTransform { s with position, transform } i) j := by
    intro j hj
    have hunion : childrenUnion (updateItemToSceneTransform { s with position, transform } i) s.boundingRect j =
        s.childrenUnion s.boundingRect j := by
      refine List.foldl_ext _ _ _ fun r c hc => ?_
      have hci : c ≠ i := fun hci => hj (hci ▸ h.linked.parentItem j c hc)
      simp only [boundsInParent, updateItemToSceneTransform, hp c hci, ht c hci]
    have hbj := h.bounded j
    unfold Bounded at hbj
    rwa [← hunion] at hbj
  exact linked'.updateParentBoundingRect hb h.ordered (linked.composed (fun _ => False.elim) hc)
    (fun j => h.shown j id) fun j => h.together j id

theorem Valid.setPosition (h : Valid s) (point : PointF) : Valid (s.setPosition i point) := by
  unfold Items.setPosition
  split_ifs
  case pos => exact h.moved (fun j hj => update_of_ne hj ..) fun _ _ => rfl
  case neg => exact h

theorem Valid.setTransform (h : Valid s) (transform : T) : Valid (s.setTransform i transform) := by
  unfold Items.setTransform
  split_ifs
  case pos => exact h
  case neg => exact h.moved (fun _ _ => rfl) fun j hj => update_of_ne hj ..

theorem Valid.step (h : Valid s) {event : Nat × Call T} (ha : s.Allowed event) (hs : s.step event = some s') :
    Valid s' := by
  cases hs
  obtain ⟨i, event⟩ := event
  cases event with
  | setParentItem item     => exact h.setParentItem fun p hp => ha.2 p (congrArg Call.setParentItem hp)
  | setVisible visible     => exact h.setVisible visible
  | setPosition point      => exact h.setPosition point
  | setSize size           => exact h.setSize size
  | setTransform transform => exact h.setTransform transform
  | setZ z                 => exact h.setZ z
  | stackBefore sibling    => exact h.stackBefore sibling
  | stackAfter sibling     => exact h.stackAfter sibling
  | sortedChildItems       => exact h.sortChildItems

structure Consistent (s : Items T) : Prop where
  boundingRect     : ∀ i, RectF.Same (s.boundingRect i) (s.childrenUnion s.boundingRect i)
  chain            : ∀ i, ∃ chain, Chain s.parentItem i chain ∧
    s.itemToSceneTransform i = (chain.map fun a => s.transform a * fromTranslate (s.position a)).prod ∧
    s.effectiveVisible i = chain.all s.explicitVisible ∧ ∀ root ∈ chain.getLast?, s.scene i = s.scene root
  childItems       : ∀ i p, (s.childItems p).count i = if s.parentItem i = some p then 1 else 0
  sortedChildItems : ∀ i, StablySorted s.z (s.getSortedChildItems i) (s.childItems i)

theorem caches_consistent {count : Nat} {scene : Nat → Option Nat}
    (h : Machine.Reaches step Allowed (constructed count scene) s) : s.Consistent := by
  have valid := h.invariant (valid_constructed count scene) fun _ _ _ hv ha hs => hv.step ha hs
  constructor
  case boundingRect => exact valid.bounded
  case chain => exact valid.exists_chain
  case childItems =>
    intro i p
    split_ifs with hp
    · exact List.count_eq_one_of_mem (valid.linked.nodup p) (valid.linked.mem_iff.mpr ⟨hp, id⟩)
    · exact List.count_eq_zero_of_not_mem fun hi => hp (valid.linked.parentItem p i hi)
  case sortedChildItems =>
    intro i
    rw [valid.getSortedChildItems]
    exact stablySorted_stableSort s (s.childItems i)

end KWin.Items

namespace KWin

-- The part of `QTransform` that keeps lines parallel.
structure Affine where
  m11 : ℚ
  m12 : ℚ
  m21 : ℚ
  m22 : ℚ
  dx  : ℚ
  dy  : ℚ
deriving DecidableEq

namespace Affine

def mul (a b : Affine) : Affine where
  m11 := a.m11 * b.m11 + a.m12 * b.m21
  m12 := a.m11 * b.m12 + a.m12 * b.m22
  m21 := a.m21 * b.m11 + a.m22 * b.m21
  m22 := a.m21 * b.m12 + a.m22 * b.m22
  dx  := a.dx * b.m11 + a.dy * b.m21 + b.dx
  dy  := a.dx * b.m12 + a.dy * b.m22 + b.dy

def map (t : Affine) (p : PointF) : PointF :=
  ⟨t.m11 * p.x + t.m21 * p.y + t.dx, t.m12 * p.x + t.m22 * p.y + t.dy⟩

def mapRect (t : Affine) (r : RectF) : RectF :=
  let a := t.map ⟨r.left, r.top⟩
  let b := t.map ⟨r.right, r.top⟩
  let c := t.map ⟨r.left, r.bottom⟩
  let d := t.map ⟨r.right, r.bottom⟩
  ⟨min (min a.x b.x) (min c.x d.x), min (min a.y b.y) (min c.y d.y),
    max (max a.x b.x) (max c.x d.x), max (max a.y b.y) (max c.y d.y)⟩

instance : Transform Affine where
  mul                := mul
  one                := ⟨1, 0, 0, 1, 0, 0⟩
  mul_assoc a b c    := by
    change mul (mul a b) c = mul a (mul b c)
    simp only [mul, mk.injEq]
    refine ⟨?_, ?_, ?_, ?_, ?_, ?_⟩ <;> ring
  one_mul a          := by
    change mul ⟨1, 0, 0, 1, 0, 0⟩ a = a
    simp [mul]
  mul_one a          := by
    change mul a ⟨1, 0, 0, 1, 0, 0⟩ = a
    simp [mul]
  fromTranslate p    := ⟨1, 0, 0, 1, p.x, p.y⟩
  mapRect            := mapRect
  fromTranslate_zero := rfl

end Affine

namespace Items

open Forest

variable {T : Type} {s : Items T} {i p : Nat}

theorem allowed_setParentItem (hi : i < s.count) (hp : p < s.count) (htop : s.parentItem p = none) (hne : p ≠ i) :
    s.Allowed (i, .setParentItem (some p)) := by
  refine ⟨hi, fun q hq => ?_⟩
  cases hq
  refine ⟨hp, fun h => ?_⟩
  cases Relation.ReflTransGen.cases_head h with
  | inl h => exact hne h
  | inr h =>
    have ⟨_, h, _⟩ := h
    cases htop.symm.trans h

variable {start : Items Affine} {s : Items Affine}

theorem reaches_call (h : Machine.Reaches step Allowed start s) (i : Nat) (call : Call Affine)
    (ha : s.Allowed (i, call)) : Machine.Reaches step Allowed start (s.call i call) :=
  h.tail ha rfl

theorem reaches_setParentItem (h : Machine.Reaches step Allowed start s) (i p : Nat) (hi : i < s.count)
    (hp : p < s.count) (htop : s.parentItem p = none) (hne : p ≠ i) :
    Machine.Reaches step Allowed start (s.setParentItem i (some p)) :=
  reaches_call h i (.setParentItem (some p)) (allowed_setParentItem hi hp htop hne)

def three : Items Affine :=
  constructed 3 some

-- A child that turns by a right angle, and comes below the other one.
def turned : Items Affine :=
  (((three.setParentItem 1 (some 0)).setParentItem 2 (some 0)).setTransform 2 ⟨0, 1, -1, 0, 0, 0⟩).setZ 2 (-1)

theorem caches_consistent_turned : turned.Consistent :=
  have h₀ : Machine.Reaches step Allowed (constructed 3 some) three := .refl
  have h₁ := reaches_setParentItem h₀ 1 0 (by decide) (by decide) rfl (by decide)
  have h₂ := reaches_setParentItem h₁ 2 0 (by decide) (by decide) rfl (by decide)
  have h₃ := reaches_call h₂ 2 (.setTransform ⟨0, 1, -1, 0, 0, 0⟩) ⟨(by decide : 2 < 3), fun _ h => by cases h⟩
  have h₄ := reaches_call h₃ 2 (.setZ (-1)) ⟨(by decide : 2 < 3), fun _ h => by cases h⟩
  caches_consistent h₄

-- Two children without a size change places.
def swapped : Items Affine :=
  ((((three.setParentItem 1 (some 0)).setParentItem 2 (some 0)).setPosition 1 ⟨5, 5⟩).setPosition 2
    ⟨7, 7⟩).stackBefore 2 (some 1)

theorem boundingRect_not_union : ¬∀ s : Items Affine, Machine.Reaches step Allowed (constructed 3 some) s →
    ∀ i, s.boundingRect i = s.childrenUnion s.boundingRect i := by
  intro h
  have h₀ : Machine.Reaches step Allowed (constructed 3 some) three := .refl
  have h₁ := reaches_setParentItem h₀ 1 0 (by decide) (by decide) rfl (by decide)
  have h₂ := reaches_setParentItem h₁ 2 0 (by decide) (by decide) rfl (by decide)
  have h₃ := reaches_call h₂ 1 (.setPosition ⟨5, 5⟩) ⟨(by decide : 1 < 3), fun _ h => by cases h⟩
  have h₄ := reaches_call h₃ 2 (.setPosition ⟨7, 7⟩) ⟨(by decide : 2 < 3), fun _ h => by cases h⟩
  have h₅ := reaches_call h₄ 2 (.stackBefore (some 1)) ⟨(by decide : 2 < 3), fun _ h => by cases h⟩
  exact absurd (h swapped h₅ 0) (by decide +kernel)

end Items
end KWin
