import Mathlib.Data.List.Perm.Subperm
import Mathlib.Data.List.Sort
import Mathlib.Logic.Relation
import PlasmaModel.Lib.BreadthFirst
import PlasmaModel.Stacking.Basic

namespace KWin.Workspace

open BreadthFirst

variable {Window : Type _} [DecidableEq Window] {ws : Workspace Window} {stacking : List Window} {w : Window}
variable {c d e : Constraint Window} {done queue enqueued children : List (Constraint Window)} {fuel : Nat}
variable {sort : (Constraint Window → Constraint Window → Bool) → List (Constraint Window) → List (Constraint Window)}

def Satisfied (stacking : List Window) (c : Constraint Window) : Prop :=
  stacking.idxOf c.below < stacking.idxOf c.above

-- Both windows of the constraint are in the stacking order.
def Present (ws : Workspace Window) (c : Constraint Window) : Prop :=
  c ∈ ws.constraints ∧ c.below ∈ ws.unconstrainedStackingOrder ∧ c.above ∈ ws.unconstrainedStackingOrder

instance : Decidable (ws.Present c) :=
  inferInstanceAs <| Decidable (_ ∧ _)

-- The layers do not satisfy the constraint, or its lower window may be lifted.
inductive Unsettled (ws : Workspace Window) : Constraint Window → Prop
  | layers {c : Constraint Window} : ws.Present c → ¬Satisfied ws.layeredStackingOrder c → Unsettled ws c
  | parent {c d : Constraint Window} : ws.Present c → Unsettled ws d → d.above = c.below → Unsettled ws c

theorem Unsettled.present (h : ws.Unsettled c) : ws.Present c := by
  cases h <;> assumption

def Root (ws : Workspace Window) (c : Constraint Window) : Prop :=
  c ∈ ws.rootConstraints

-- A constraint with a missing window does not lead to its children.
def Edge (ws : Workspace Window) (c child : Constraint Window) : Prop :=
  ws.Present c ∧ child ∈ ws.children c

instance : Decidable (ws.Edge c d) :=
  inferInstanceAs <| Decidable (_ ∧ _)

-- Every unsettled constraint is reached from the root constraints, and it is farther from them than
-- its unsettled parents.
def Settles (ws : Workspace Window) : Prop :=
  ∀ c, ws.Unsettled c → (∃ n, Chain ws.Root ws.Edge n c) ∧
    ∀ d, ws.Unsettled d → d.above = c.below →
      ∀ n, Chain ws.Root ws.Edge n c → ∃ m < n, Chain ws.Root ws.Edge m d

omit [DecidableEq Window] in
theorem Layer.mem_all (layer : Layer) : layer ∈ Layer.all := by
  cases layer <;> decide

theorem mem_layeredStackingOrder : w ∈ ws.layeredStackingOrder ↔ w ∈ ws.unconstrainedStackingOrder := by
  simp [layeredStackingOrder, Layer.mem_all]

theorem layeredStackingOrder_perm (h : ws.unconstrainedStackingOrder.Nodup) :
    ws.layeredStackingOrder.Perm ws.unconstrainedStackingOrder := by
  have hnodup : ws.layeredStackingOrder.Nodup := by
    refine List.nodup_flatMap.mpr ⟨fun layer _ => h.filter _, ?_⟩
    refine List.Pairwise.imp ?_ (show Layer.all.Nodup by decide)
    intro l₁ l₂ hne w h₁ h₂
    have e₁ : ws.computeLayer w = l₁ := by simpa using (List.mem_filter.mp h₁).2
    have e₂ : ws.computeLayer w = l₂ := by simpa using (List.mem_filter.mp h₂).2
    exact hne (e₁.symm.trans e₂)
  exact (List.perm_ext_iff_of_nodup hnodup h).mpr fun w => mem_layeredStackingOrder

section lift

variable (hb : c.below ∈ stacking) (ha : c.above ∈ stacking)

theorem getElem?_idxOf_of_mem (h : w ∈ stacking) : stacking[stacking.idxOf w]? = some w := by
  rw [List.getElem?_eq_getElem (List.idxOf_lt_length_iff.mpr h), List.getElem_idxOf]

theorem idxOf?_of_mem (h : w ∈ stacking) : stacking.idxOf? w = some (stacking.idxOf w) := by
  have ⟨i, hi⟩ := Option.isSome_iff_exists.mp (List.isSome_idxOf?.mpr h)
  rw [List.idxOf_eq_getD_idxOf?, hi, Option.getD_some]

theorem idxOf_of_getElem? {i : Nat} (hn : stacking.Nodup) (h : stacking[i]? = some w) : stacking.idxOf w = i := by
  obtain ⟨hi, rfl⟩ := List.getElem?_eq_some_iff.mp h
  exact hn.idxOf_getElem i hi

include hb ha

theorem lift_perm : (lift stacking c (stacking.idxOf c.below) (stacking.idxOf c.above)).Perm stacking := by
  have hi := List.idxOf_lt_length_iff.mpr hb
  have hj := List.idxOf_lt_length_iff.mpr ha
  unfold lift
  split
  case isFalse => rfl
  case isTrue =>
    have hlen : stacking.idxOf c.below ≤ (stacking.eraseIdx (stacking.idxOf c.above)).length := by
      rw [List.length_eraseIdx_of_lt hj]
      omega
    refine (List.perm_insertIdx _ _ hlen).trans ?_
    have hp := List.getElem_cons_eraseIdx_perm hj
    rwa [List.getElem_idxOf] at hp

variable (hn : stacking.Nodup)
include hn

-- The upper window takes the place of the lower one, and the windows in between make room.
theorem lift_idxOf (h : stacking.idxOf c.above < stacking.idxOf c.below) (hw : w ∈ stacking) :
    (lift stacking c (stacking.idxOf c.below) (stacking.idxOf c.above)).idxOf w =
      if w = c.above then stacking.idxOf c.below
      else if stacking.idxOf c.above < stacking.idxOf w ∧ stacking.idxOf w ≤ stacking.idxOf c.below then
        stacking.idxOf w - 1
      else stacking.idxOf w := by
  refine idxOf_of_getElem? ((lift_perm hb ha).nodup_iff.mpr hn) ?_
  have hi := List.idxOf_lt_length_iff.mpr hb
  have hj := List.idxOf_lt_length_iff.mpr ha
  have hw' := getElem?_idxOf_of_mem hw
  rw [lift, if_pos h]
  split
  case isTrue hwa =>
    subst hwa
    rw [List.getElem?_insertIdx, if_neg (lt_irrefl _), if_pos rfl, if_pos]
    rw [List.length_eraseIdx_of_lt hj]
    omega
  case isFalse hwa =>
    have hne : stacking.idxOf w ≠ stacking.idxOf c.above := mt (List.idxOf_inj hw).mp hwa
    split
    case isTrue hbetween =>
      rw [List.getElem?_insertIdx_of_lt (by omega), List.getElem?_eraseIdx_of_ge (by omega)]
      rwa [Nat.sub_add_cancel (by omega)]
    case isFalse hout =>
      by_cases hlt : stacking.idxOf w < stacking.idxOf c.above
      case pos => rwa [List.getElem?_insertIdx_of_lt (by omega), List.getElem?_eraseIdx_of_lt hlt]
      case neg =>
        rw [List.getElem?_insertIdx_of_gt (by omega), List.getElem?_eraseIdx_of_ge (by omega)]
        rwa [Nat.sub_add_cancel (by omega)]

theorem lift_satisfied (hne : c.below ≠ c.above) :
    Satisfied (lift stacking c (stacking.idxOf c.below) (stacking.idxOf c.above)) c := by
  by_cases h : stacking.idxOf c.above < stacking.idxOf c.below
  case pos =>
    rw [Satisfied, lift_idxOf hb ha hn h hb, lift_idxOf hb ha hn h ha, if_neg hne, if_pos rfl, if_pos ⟨h, le_rfl⟩]
    omega
  case neg =>
    have := mt (List.idxOf_inj hb).mp hne
    rw [Satisfied, lift, if_neg h]
    omega

-- Only the constraints on what is above a window that is really lifted can be broken.
theorem lift_preserves (hb' : e.below ∈ stacking) (ha' : e.above ∈ stacking) (hs : Satisfied stacking e)
    (hne : ¬Satisfied stacking c → e.below ≠ c.above) :
    Satisfied (lift stacking c (stacking.idxOf c.below) (stacking.idxOf c.above)) e := by
  by_cases h : stacking.idxOf c.above < stacking.idxOf c.below
  case neg => rwa [lift, if_neg h]
  case pos =>
    have hne := hne h.asymm
    have hj := mt (List.idxOf_inj hb').mp hne
    unfold Satisfied at hs ⊢
    rw [lift_idxOf hb ha hn h hb', lift_idxOf hb ha hn h ha', if_neg hne]
    by_cases he : e.above = c.above
    case pos =>
      rw [he] at hs
      rw [if_pos he]
      split <;> omega
    case neg =>
      have hj' := mt (List.idxOf_inj ha').mp he
      rw [if_neg he]
      split <;> split <;> omega

end lift

theorem foldl_enqueue (hn : children.Nodup) :
    children.foldl enqueue (queue, enqueued) =
      (queue ++ children.filter (· ∉ enqueued), enqueued ++ children.filter (· ∉ enqueued)) := by
  induction children generalizing queue enqueued
  case nil => simp
  case cons a children ih =>
    have ⟨ha, hn⟩ := List.nodup_cons.mp hn
    rw [List.foldl_cons, enqueue]
    split
    case isTrue hm => rw [ih hn, List.filter_cons_of_neg (by simpa using hm)]
    case isFalse hm =>
      have hf : children.filter (· ∉ enqueued ++ [a]) = children.filter (· ∉ enqueued) :=
        List.filter_congr fun b hb => by
          have : b ≠ a := fun he => ha (he ▸ hb)
          simp [this]
      rw [ih hn, hf, List.filter_cons_of_pos (by simpa using hm)]
      simp

theorem Settles.below_ne_above (hs : ws.Settles) (hp : ws.Present c) : c.below ≠ c.above := by
  intro he
  have hu : ws.Unsettled c := .layers hp (by rw [Satisfied, he]; exact lt_irrefl _)
  have ⟨⟨n, hn⟩, hd⟩ := hs c hu
  induction n using Nat.strongRecOn
  case ind n ih =>
    have ⟨m, hm, hc⟩ := hd c hu he.symm n hn
    exact ih m hm hc

-- The loop in front of an iteration. `done` are the constraints of the iterations before.
structure Pass (ws : Workspace Window) (done : List (Constraint Window)) (stacking : List Window)
    (queue enqueued : List (Constraint Window)) : Prop where
  frontier : Frontier ws.Root ws.Edge done queue
  enqueued : ∀ c, c ∈ enqueued ↔ c ∈ done ++ queue
  known    : ∀ c ∈ done ++ queue, c ∈ ws.constraints
  perm     : stacking.Perm ws.layeredStackingOrder
  settled  : ∀ c, ws.Present c → ¬ws.Unsettled c → Satisfied stacking c
  parents  : ws.Settles → ∀ c ∈ done, ws.Unsettled c → ∀ d, ws.Unsettled d → d.above = c.below → d ∈ done
  applied  : ws.Settles → ∀ c ∈ done, ws.Present c → Satisfied stacking c

namespace Pass

theorem start (hc : ws.constraints.Nodup) (hp : queue.Perm ws.rootConstraints) :
    Pass ws [] ws.layeredStackingOrder queue queue where
  frontier := .start (hp.nodup_iff.mpr (hc.filter _)) fun _ => hp.mem_iff
  enqueued _ := Iff.rfl
  known c h := (List.mem_filter.mp (hp.mem_iff.mp h)).1
  perm := .refl _
  settled c h hu := not_not.mp fun hs => hu (.layers h hs)
  parents _ c h := absurd h List.not_mem_nil
  applied _ c h := absurd h List.not_mem_nil

theorem mem_iff (h : Pass ws done stacking queue enqueued) : w ∈ stacking ↔ w ∈ ws.unconstrainedStackingOrder :=
  h.perm.mem_iff.trans mem_layeredStackingOrder

-- What an iteration does to the order of the constraints that have been visited.
theorem parents_concat (h : Pass ws done stacking (c :: queue) enqueued) (hs : ws.Settles) (he : e ∈ done ++ [c])
    (hu : ws.Unsettled e) (hd : ws.Unsettled d) (hde : d.above = e.below) : d ∈ done := by
  rcases List.mem_append.mp he with he | he
  case inl => exact h.parents hs e he hu d hd hde
  case inr =>
    obtain rfl := List.mem_singleton.mp he
    exact h.frontier.nearer ((hs e hu).2 d hd hde)

theorem skip (h : Pass ws done stacking (c :: queue) enqueued) (hc : ¬ws.Present c) :
    Pass ws (done ++ [c]) stacking queue enqueued where
  frontier := by
    have := h.frontier.pop List.nodup_nil (by simp) fun b hb => absurd hb.1 hc
    rwa [List.append_nil] at this
  enqueued c := by rw [h.enqueued, List.append_assoc, List.singleton_append]
  known c hm := h.known c (by rwa [List.append_assoc, List.singleton_append] at hm)
  perm := h.perm
  settled := h.settled
  parents hs e he hu d hd hde := List.mem_append_left _ (h.parents_concat hs he hu hd hde)
  applied hs e he hp := by
    rcases List.mem_append.mp he with he | he
    · exact h.applied hs e he hp
    · exact absurd (List.mem_singleton.mp he ▸ hp) hc

theorem apply (h : Pass ws done stacking (c :: queue) enqueued) (hw : ws.unconstrainedStackingOrder.Nodup)
    (hc : ws.constraints.Nodup) (hp : ws.Present c) (hch : children.Perm (ws.children c)) :
    Pass ws (done ++ [c]) (lift stacking c (stacking.idxOf c.below) (stacking.idxOf c.above))
      (queue ++ children.filter (· ∉ enqueued)) (enqueued ++ children.filter (· ∉ enqueued)) := by
  have hb : c.below ∈ stacking := h.mem_iff.mpr hp.2.1
  have ha : c.above ∈ stacking := h.mem_iff.mpr hp.2.2
  have hn : stacking.Nodup := (h.perm.trans (layeredStackingOrder_perm hw)).nodup_iff.mpr hw
  have hmem : ∀ {b}, b ∈ done ++ [c] ++ (queue ++ children.filter (· ∉ enqueued)) ↔
      b ∈ done ++ c :: queue ∨ b ∈ children.filter (· ∉ enqueued) := by simp [or_assoc]
  have hfresh : ∀ {b}, b ∈ children.filter (· ∉ enqueued) ↔ b ∈ ws.children c ∧ b ∉ done ++ c :: queue := by
    intro b
    rw [List.mem_filter, hch.mem_iff, decide_eq_true_iff, h.enqueued]
  have hkeep : ∀ {e}, ws.Present e → Satisfied stacking e → (¬Satisfied stacking c → e.below ≠ c.above) →
      Satisfied (lift stacking c (stacking.idxOf c.below) (stacking.idxOf c.above)) e := fun he =>
    lift_preserves hb ha hn (h.mem_iff.mpr he.2.1) (h.mem_iff.mpr he.2.2)
  -- A window is lifted only because of an unsettled constraint, and then the constraints on it are
  -- unsettled, too.
  have hunsettled : ∀ {e}, ws.Present e → ¬Satisfied stacking c → e.below = c.above →
      ws.Unsettled c ∧ ws.Unsettled e := fun he hs hbelow =>
    have hu : ws.Unsettled c := not_not.mp fun hu => hs (h.settled c hp hu)
    ⟨hu, .parent he hu hbelow.symm⟩
  constructor
  case frontier =>
    refine h.frontier.pop ((hch.nodup_iff.mpr (hc.filter _)).filter _) (fun b hm => ?_) fun b hm => ?_
    · exact ⟨⟨hp, (hfresh.mp hm).1⟩, (hfresh.mp hm).2⟩
    · by_cases hb : b ∈ done ++ c :: queue
      case pos => exact List.mem_append_left _ hb
      case neg => exact List.mem_append_right _ (hfresh.mpr ⟨hm.2, hb⟩)
  case enqueued =>
    intro b
    rw [hmem, List.mem_append, h.enqueued]
  case known =>
    intro b hm
    rcases hmem.mp hm with hm | hm
    · exact h.known b hm
    · exact (List.mem_filter.mp (hfresh.mp hm).1).1
  case perm => exact (lift_perm hb ha).trans h.perm
  case settled => exact fun e he hu => hkeep he (h.settled e he hu) fun hs hbelow => hu (hunsettled he hs hbelow).2
  case parents => exact fun hs e he hu d hd hde => List.mem_append_left _ (h.parents_concat hs he hu hd hde)
  case applied =>
    intro hs e he hpe
    rcases List.mem_append.mp he with he | he
    case inr =>
      obtain rfl := List.mem_singleton.mp he
      exact lift_satisfied hb ha hn (hs.below_ne_above hp)
    case inl =>
      refine hkeep hpe (h.applied hs e he hpe) fun hsat hbelow => ?_
      -- The constraint would have been visited before its child.
      have ⟨huc, hue⟩ := hunsettled hpe hsat hbelow
      have hdone := h.parents hs e he hue c huc hbelow.symm
      exact (List.nodup_append.mp h.frontier.nodup).2.2 c hdone c List.mem_cons_self rfl

theorem run (h : Pass ws done stacking queue enqueued) (hsort : ∀ lt l, (sort lt l).Perm l)
    (hw : ws.unconstrainedStackingOrder.Nodup) (hc : ws.constraints.Nodup)
    (hf : ws.constraints.length ≤ done.length + fuel) :
    ∃ done' stacking' enqueued', ws.applyConstraints sort fuel stacking queue enqueued = some stacking' ∧
      Pass ws done' stacking' [] enqueued' := by
  induction fuel generalizing done stacking queue enqueued
  case zero =>
    cases queue
    case nil => exact ⟨done, stacking, enqueued, by simp [applyConstraints], h⟩
    case cons c queue =>
      have := (List.subperm_of_subset h.frontier.nodup h.known).length_le
      simp at this
      omega
  case succ fuel ih =>
    cases queue
    case nil => exact ⟨done, stacking, enqueued, by simp [applyConstraints], h⟩
    case cons c queue =>
      have hf : ws.constraints.length ≤ (done ++ [c]).length + fuel := by
        rw [List.length_append, List.length_singleton]
        omega
      have hknown := h.known c (by simp)
      rw [applyConstraints]
      by_cases hp : ws.Present c
      case pos =>
        have hch := hsort (constraintComparator (lift stacking c (stacking.idxOf c.below) (stacking.idxOf c.above)))
          (ws.children c)
        rw [idxOf?_of_mem (h.mem_iff.mpr hp.2.1), idxOf?_of_mem (h.mem_iff.mpr hp.2.2)]
        simp only [foldl_enqueue (hch.nodup_iff.mpr (hc.filter _))]
        exact ih (h.apply hw hc hp hch) hf
      case neg =>
        have hmissing : stacking.idxOf? c.below = none ∨ stacking.idxOf? c.above = none := by
          rw [List.idxOf?_eq_none_iff, List.idxOf?_eq_none_iff, h.mem_iff, h.mem_iff]
          exact not_and_or.mp fun hm => hp ⟨hknown, hm⟩
        split
        case h_1 hb ha => simp [hb, ha] at hmissing
        case h_2 => exact ih (h.skip hp) hf

-- What the loop leaves behind.
theorem satisfied (h : Pass ws done stacking [] enqueued) (hs : ws.Settles) (hp : ws.Present c) :
    Satisfied stacking c := by
  by_cases hu : ws.Unsettled c
  case pos =>
    have ⟨n, hn⟩ := (hs c hu).1
    exact h.applied hs c (h.frontier.finished hn) hp
  case neg => exact h.settled c hp hu

end Pass

theorem constrainedStackingOrder_correct (hsort : ∀ lt constraints, (sort lt constraints).Perm constraints)
    (hw : ws.unconstrainedStackingOrder.Nodup) (hc : ws.constraints.Nodup) :
    ∃ stacking, ws.constrainedStackingOrder sort = some stacking ∧
      stacking.Perm ws.unconstrainedStackingOrder ∧
      (ws.Settles → ∀ c ∈ ws.constraints, c.below ∈ stacking → c.above ∈ stacking →
        stacking.idxOf c.below < stacking.idxOf c.above) := by
  have hstart := Pass.start hc (hsort (constraintComparator ws.layeredStackingOrder) _)
  have ⟨_, stacking, _, hr, h⟩ := hstart.run hsort hw hc (Nat.le_add_left _ _)
  exact ⟨stacking, hr, h.perm.trans (layeredStackingOrder_perm hw), fun hs c hm hb ha =>
    h.satisfied hs ⟨hm, h.mem_iff.mp hb, h.mem_iff.mp ha⟩⟩

def insertionSort (lt : Constraint Window → Constraint Window → Bool) (constraints : List (Constraint Window)) :
    List (Constraint Window) :=
  constraints.insertionSort (lt · ·)

-- The window 2 is a transient for both 0 and 1, and has a transient itself.
def twoMainWindows : Workspace Nat where
  unconstrainedStackingOrder := [3, 2, 1, 0]
  computeLayer _ := .normal
  constraints := [⟨0, 2⟩, ⟨1, 2⟩, ⟨2, 3⟩]

theorem twoMainWindows_settles : twoMainWindows.Settles := by
  have hroots : ∀ {d : Constraint Nat}, twoMainWindows.Unsettled d → d.above = 2 → twoMainWindows.Root d := fun hd h => by
    have hm := hd.present.1
    have : ∀ d ∈ twoMainWindows.constraints, d.above = 2 → d ∈ twoMainWindows.rootConstraints := by decide
    exact this _ hm h
  intro c hc
  have hm := hc.present.1
  by_cases hroot : c ∈ twoMainWindows.rootConstraints
  case pos =>
    refine ⟨⟨0, .root hroot⟩, fun d hd hdc => ?_⟩
    have : ∀ c ∈ twoMainWindows.rootConstraints, ∀ d ∈ twoMainWindows.constraints, d.above ≠ c.below := by decide
    exact absurd hdc (this c hroot d hd.present.1)
  case neg =>
    have : ∀ c ∈ twoMainWindows.constraints, c ∉ twoMainWindows.rootConstraints → c = ⟨2, 3⟩ := by decide
    obtain rfl := this c hm hroot
    have hedge : twoMainWindows.Edge ⟨0, 2⟩ ⟨2, 3⟩ := by decide
    refine ⟨⟨1, .step (.root ?_) hedge⟩, fun d hd hdc n hn => ⟨0, ?_, .root (hroots hd hdc)⟩⟩
    · show _ ∈ twoMainWindows.rootConstraints
      decide
    · cases hn
      case root h => exact absurd h hroot
      case step => exact Nat.succ_pos _

theorem constrainedStackingOrder_correct_two_main_windows :
    ∃ stacking, twoMainWindows.constrainedStackingOrder insertionSort = some stacking ∧
      stacking.Perm twoMainWindows.unconstrainedStackingOrder ∧
      ∀ c ∈ twoMainWindows.constraints, c.below ∈ stacking → c.above ∈ stacking →
        stacking.idxOf c.below < stacking.idxOf c.above :=
  have ⟨stacking, hr, hp, hs⟩ := constrainedStackingOrder_correct
    (fun lt _ => List.perm_insertionSort (lt · ·) _) (show twoMainWindows.unconstrainedStackingOrder.Nodup by decide)
    (by decide)
  ⟨stacking, hr, hp, hs twoMainWindows_settles⟩

def Acyclic (ws : Workspace Window) : Prop :=
  ∀ w, ¬Relation.TransGen (fun a b => ⟨a, b⟩ ∈ ws.constraints) w w

theorem acyclic_of_rank (rank : Window → Nat) (h : ∀ c ∈ ws.constraints, rank c.below < rank c.above) : ws.Acyclic := by
  have hlt : ∀ {a b}, Relation.TransGen (fun a b => ⟨a, b⟩ ∈ ws.constraints) a b → rank a < rank b := by
    intro a b hab
    induction hab
    case single hc => exact h _ hc
    case tail hc ih => exact ih.trans (h _ hc)
  exact fun w hw => lt_irrefl _ (hlt hw)

-- The constraint (2, 3) is reached over (0, 2) before (1, 2), which is farther from the roots.
def lateMainWindow : Workspace Nat where
  unconstrainedStackingOrder := [0, 1, 2, 3, 4]
  computeLayer _ := .normal
  constraints := [⟨0, 2⟩, ⟨4, 1⟩, ⟨1, 2⟩, ⟨2, 3⟩]

theorem constrainedStackingOrder_late_main_window :
    lateMainWindow.unconstrainedStackingOrder.Nodup ∧ lateMainWindow.constraints.Nodup ∧ lateMainWindow.Acyclic ∧
      ¬∃ stacking, lateMainWindow.constrainedStackingOrder insertionSort = some stacking ∧
        stacking.Perm lateMainWindow.unconstrainedStackingOrder ∧
        ∀ c ∈ lateMainWindow.constraints, c.below ∈ stacking → c.above ∈ stacking →
          stacking.idxOf c.below < stacking.idxOf c.above := by
  refine ⟨by decide, by decide, acyclic_of_rank (fun w => [0, 1, 2, 3, 0].getD w 0) (by decide), fun ⟨stacking, h, _, hc⟩ => ?_⟩
  have hr : lateMainWindow.constrainedStackingOrder insertionSort = some [0, 3, 4, 1, 2] := by decide
  obtain rfl := Option.some.inj (hr.symm.trans h)
  exact absurd (hc ⟨2, 3⟩ (by decide) (by decide) (by decide)) (by decide)

end KWin.Workspace
