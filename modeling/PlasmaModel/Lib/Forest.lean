import Mathlib.Data.Finset.Card
import Mathlib.Logic.Relation
import Mathlib.Order.Basic
import Mathlib.Order.Defs.LinearOrder

-- Forests in which every node knows the node above it.
namespace Forest

open Relation

variable {α : Type _} {up up' : α → Option α} {nodes : Finset α} {a b c x p : α}

def Above (up : α → Option α) : α → α → Prop :=
  TransGen fun a b => up a = some b

def AboveOrSelf (up : α → Option α) : α → α → Prop :=
  ReflTransGen fun a b => up a = some b

def Acyclic (up : α → Option α) : Prop :=
  ∀ a, ¬Above up a a

theorem Acyclic.mono (h : Acyclic up) (hm : ∀ a b, up' a = some b → up a = some b) : Acyclic up' :=
  fun a ha => h a (TransGen.mono hm a a ha)

-- A node which is at the top may be put below another node if that is not below it.
theorem Acyclic.update [DecidableEq α] (h : Acyclic up) (hp : ¬AboveOrSelf up p x) :
    Acyclic (Function.update up x (some p)) := by
  -- A new path is an old one as far as it does not pass `x`.
  have old : ∀ {a b}, ReflTransGen (fun a b => Function.update up x (some p) a = some b) a b →
      AboveOrSelf up a b ∨ (AboveOrSelf up a x ∧
        ReflTransGen (fun a b => Function.update up x (some p) a = some b) x b) := by
    intro a b hab
    induction hab using ReflTransGen.head_induction_on
    case refl => exact .inl .refl
    case head a c hac hcb ih =>
      by_cases ha : a = x
      case pos =>
        subst ha
        exact .inr ⟨.refl, .head hac hcb⟩
      case neg =>
        rw [Function.update_of_ne ha] at hac
        exact ih.imp (.head hac) fun ⟨hcx, hxb⟩ => ⟨.head hac hcx, hxb⟩
  have from_p : ∀ {a}, ReflTransGen (fun a b => Function.update up x (some p) a = some b) p a →
      AboveOrSelf up p a := fun hpa =>
    (old hpa).resolve_right fun ⟨hpx, _⟩ => hp hpx
  intro a ha
  have ⟨b, hab, hba⟩ := TransGen.head'_iff.mp ha
  by_cases hax : a = x
  case pos =>
    subst hax
    rw [Function.update_self] at hab
    obtain rfl := Option.some.inj hab
    exact hp (from_p hba)
  case neg =>
    rw [Function.update_of_ne hax] at hab
    rcases old hba with hba | ⟨hbx, hxa⟩
    case inl => exact h a (TransGen.head' hab hba)
    case inr =>
      rcases ReflTransGen.cases_head hxa with hxa | ⟨c, hxc, hca⟩
      · exact hax hxa.symm
      · rw [Function.update_self] at hxc
        obtain rfl := Option.some.inj hxc
        exact hp ((from_p hca).trans (.head hab hbx))

open Classical in
-- The number of nodes above a node.
noncomputable def rank (up : α → Option α) (nodes : Finset α) (a : α) : Nat :=
  (nodes.filter (Above up a)).card

theorem rank_lt (h : Acyclic up) (hab : up a = some b) (hb : b ∈ nodes) : rank up nodes b < rank up nodes a := by
  classical
  refine Finset.card_lt_card (Finset.ssubset_iff_subset_ne.mpr ⟨fun c hc => ?_, fun he => ?_⟩)
  · have ⟨hc, hbc⟩ := Finset.mem_filter.mp hc
    exact Finset.mem_filter.mpr ⟨hc, TransGen.head hab hbc⟩
  · have : b ∈ nodes.filter (Above up a) := Finset.mem_filter.mpr ⟨hb, .single hab⟩
    rw [← he] at this
    exact h b (Finset.mem_filter.mp this).2

theorem rank_le (up : α → Option α) (nodes : Finset α) (a : α) : rank up nodes a ≤ nodes.card := by
  classical exact Finset.card_filter_le _ _

section

variable {β : Type _} {down : α → List α} {derive : (α → β) → α → β} {height : α → Nat}
  {fuel top : Nat} {v w : α → β} {lazy : Bool}

-- The nodes with everything above them, from the bottom to the top.
inductive Chain (up : α → Option α) : α → List α → Prop
  | top {node : α} (h : up node = none) : Chain up node [node]
  | cons {node next : α} {l : List α} (h : up node = some next) (rest : Chain up next l) : Chain up node (node :: l)

theorem exists_chain (h : Acyclic up) (hn : ∀ a b, up a = some b → b ∈ nodes) (a : α) : ∃ l, Chain up a l := by
  generalize hr : rank up nodes a = r
  induction r using Nat.strong_induction_on generalizing a with
  | _ r ih =>
    cases ha : up a
    case none => exact ⟨[a], .top ha⟩
    case some b =>
      have ⟨l, hl⟩ := ih _ (hr ▸ rank_lt h ha (hn a b ha)) b rfl
      exact ⟨a :: l, .cons ha hl⟩

theorem ne_of_up (hh : ∀ a b, up b = some a → height a < height b) (hb : up a = some b) : b ≠ a :=
  fun hba => absurd (hh b a hb) (hba ▸ Nat.lt_irrefl _)

variable [DecidableEq α]

-- What it means for the values to be right at a node, and what `derive` needs there to make them so.
structure Pushes (up : α → Option α) (derive : (α → β) → α → β) (Needs Right : (α → β) → α → Prop) : Prop where
  right_of_eq : ∀ {v w a}, v a = w a → (∀ b, up a = some b → v b = w b) → Right v a → Right w a
  right       : ∀ {v a}, Needs v a → Right (Function.update v a (derive v a)) a
  needs       : ∀ {v a b}, Needs v a → Needs v b → Needs (Function.update v a (derive v a)) b
  needs_below : ∀ {v a b}, Needs v a → up b = some a → Needs (Function.update v a (derive v a)) b

-- Values that are derived from those above the node.
theorem Pushes.of_above (hh : ∀ a b, up b = some a → height a < height b)
    (hd : ∀ v w a, (∀ b, up a = some b → v b = w b) → derive v a = derive w a) :
    Pushes up derive (fun _ _ => True) fun v a => v a = derive v a where
  right_of_eq ha hvw hv := ha.symm.trans (hv.trans (hd _ _ _ hvw))
  right _ := by
    rw [Function.update_self]
    exact hd _ _ _ fun b hb => (Function.update_of_ne (ne_of_up hh hb) ..).symm
  needs _ _ := trivial
  needs_below _ _ := trivial

-- One value for the node and for what is below it, which is the one above it already.
theorem Pushes.const (hh : ∀ a b, up b = some a → height a < height b) (x : β) :
    Pushes up (fun _ _ => x) (fun v a => ∀ b, up a = some b → v b = x) fun v a => ∀ b, up a = some b → v a = v b where
  right_of_eq ha hvw hv b hb := ha.symm.trans ((hv b hb).trans (hvw b hb))
  right hv b hb := by rw [Function.update_self, Function.update_of_ne (ne_of_up hh hb), hv b hb]
  needs {v a _} _ hb c hc := by
    by_cases hca : c = a
    case pos => rw [hca, Function.update_self]
    case neg => rw [Function.update_of_ne hca, hb c hc]
  needs_below _ hb c hc := by
    cases hb.symm.trans hc
    exact Function.update_self ..

variable [DecidableEq β]

-- A value of each node is derived anew at `a` and below it. If `lazy`, this stops where the value does not change.
def push (down : α → List α) (derive : (α → β) → α → β) (lazy : Bool) : Nat → α → (α → β) → α → β
  | 0, _, v => v
  | fuel + 1, a, v =>
    if lazy ∧ v a = derive v a then
      v
    else
      (down a).foldl (fun v b => push down derive lazy fuel b v) (Function.update v a (derive v a))

-- A value of each node is derived anew at `a`, and above it as long as it changes.
def pull (up : α → Option α) (derive : (α → β) → α → β) : Nat → α → (α → β) → α → β
  | 0, _, v => v
  | fuel + 1, a, v =>
    if v a = derive v a then
      v
    else
      (up a).elim (Function.update v a (derive v a)) fun b => pull up derive fuel b (Function.update v a (derive v a))

variable {Needs Right : (α → β) → α → Prop}

theorem Pushes.push_right (p : Pushes up derive Needs Right) (hup : ∀ a b, b ∈ down a → up b = some a)
    (hh : ∀ a b, up b = some a → height a < height b) (ht : ∀ a, height a ≤ top)
    (hdown : ∀ b c, height a ≤ height b → up c = some b → c ∈ down b) (hf : top < fuel + height a) (hn : Needs v a)
    {stale : α → Prop} (hr : ∀ b, ¬stale b → b ≠ a → Right v b) :
    (∀ b, ¬stale b → Right (push down derive lazy fuel a v) b) ∧
      ∀ b, Needs v b → Needs (push down derive lazy fuel a v) b := by
  induction fuel generalizing a v stale
  case zero => exact absurd (ht a) (by omega)
  case succ fuel ih =>
    rw [push]
    split
    case isTrue h =>
      refine ⟨fun b hb => ?_, fun _ hb => hb⟩
      by_cases hba : b = a
      case pos =>
        have hright := p.right hn
        rw [← h.2, Function.update_eq_self] at hright
        exact hba ▸ hright
      case neg => exact hr b hb hba
    case isFalse =>
      -- What is below `a` and has not been reached is stale too.
      have below : ∀ (l : List α) (w : α → β), (∀ b ∈ l, b ∈ down a) → (∀ b ∈ l, Needs w b) →
          (∀ b, ¬(stale b ∨ b ∈ l) → Right w b) →
          (∀ b, ¬stale b → Right (l.foldl (fun v b => push down derive lazy fuel b v) w) b) ∧
            ∀ b, Needs w b → Needs (l.foldl (fun v b => push down derive lazy fuel b v) w) b := by
        intro l
        induction l with
        | nil => exact fun w _ _ hw => ⟨fun b hb => hw b (by simpa using hb), fun _ hb => hb⟩
        | cons c l ihl =>
          intro w hl hnl hw
          have hc := hup a c (hl c List.mem_cons_self)
          have hac := hh a c hc
          have hothers : ∀ b, ¬(stale b ∨ b ∈ l) → b ≠ c → Right w b := fun b hb hbc => hw b (by simpa [hbc] using hb)
          have ⟨hright, hneeds⟩ := ih (fun b d hb hd => hdown b d (by omega) hd) (by omega)
            (hnl c List.mem_cons_self) hothers
          have ⟨hright', hneeds'⟩ := ihl _ (fun b hb => hl b (List.mem_cons_of_mem c hb))
            (fun b hb => hneeds b (hnl b (List.mem_cons_of_mem c hb))) hright
          exact ⟨hright', fun b hb => hneeds' b (hneeds b hb)⟩
      have ⟨hright, hneeds⟩ := below (down a) (Function.update v a (derive v a)) (fun _ hb => hb)
        (fun b hb => p.needs_below hn (hup a b hb)) fun b hb => by
          have ⟨hs, hb⟩ := not_or.mp hb
          by_cases hba : b = a
          case pos =>
            cases hba
            exact p.right hn
          case neg =>
            have hbelow : ∀ c, up b = some c → c ≠ a := fun c hc hca =>
              hb (hdown a b (Nat.le_refl _) (hca ▸ hc))
            exact p.right_of_eq (Function.update_of_ne hba ..).symm
              (fun c hc => (Function.update_of_ne (hbelow c hc) ..).symm) (hr b hs hba)
      exact ⟨hright, fun b hb => hneeds b (p.needs hn hb)⟩

theorem pull_right {Same : β → β → Prop} (hs : ∀ b, Same b b) (hup : ∀ a b, b ∈ down a → up b = some a)
    (hd : ∀ v w a, (∀ b ∈ down a, v b = w b) → derive v a = derive w a)
    (hh : ∀ a b, up b = some a → height a < height b) (hf : height a < fuel)
    (hr : ∀ b, b ≠ a → Same (v b) (derive v b)) (b : α) :
    Same (pull up derive fuel a v b) (derive (pull up derive fuel a v) b) := by
  induction fuel generalizing a v
  case zero => exact absurd hf (Nat.not_lt_zero _)
  case succ fuel ih =>
    rw [pull]
    split
    case isTrue h =>
      by_cases hba : b = a
      case pos => exact hba ▸ h ▸ hs _
      case neg => exact hr b hba
    case isFalse =>
      -- Only what is directly above `a` is derived from its value.
      have hother : ∀ c, up a ≠ some c → Same (Function.update v a (derive v a) c)
          (derive (Function.update v a (derive v a)) c) := by
        intro c hc
        have hne : ∀ b ∈ down c, Function.update v a (derive v a) b = v b := by
          intro b hb
          have hba : b ≠ a := fun h => hc (h ▸ hup c b hb)
          exact Function.update_of_ne hba ..
        rw [hd _ v c hne]
        by_cases hca : c = a
        case pos =>
          rw [hca, Function.update_self]
          exact hs _
        case neg =>
          rw [Function.update_of_ne hca]
          exact hr c hca
      cases ha : up a
      case none => exact hother b (by simp [ha])
      case some c =>
        have hc := hh c a ha
        exact ih (by omega) fun d hd => hother d fun h => hd (Option.some.inj (h.symm.trans ha))

end

end Forest

-- The orders by which lists may be sorted.
namespace WeakOrder

variable {α K : Type _} {less below : α → α → Prop} {a b c : α} {l l' : List α}

def Incomparable (less : α → α → Prop) (a b : α) : Prop :=
  ¬less a b ∧ ¬less b a

structure StrictWeakOrdering (less : α → α → Prop) (l : List α) : Prop where
  irrefl             : ∀ a ∈ l, ¬less a a
  trans              : ∀ a ∈ l, ∀ b ∈ l, ∀ c ∈ l, less a b → less b c → less a c
  incomparable_trans : ∀ a ∈ l, ∀ b ∈ l, ∀ c ∈ l,
                         Incomparable less a b → Incomparable less b c → Incomparable less a c

-- No element comes behind one that it is less than.
def Sorted (less : α → α → Prop) (l : List α) : Prop :=
  l.Pairwise fun a b => ¬less b a

theorem Sorted.of_less (h : Sorted less l) (hb : ∀ a b, below a b → less a b) : Sorted below l :=
  List.Pairwise.imp (fun hn => mt (hb _ _) hn) h

variable [LinearOrder K] {key : α → K}

-- Elements with the same key are in a forest.
structure Classes (below : α → α → Prop) (key : α → K) : Prop where
  irrefl : ∀ a, ¬below a a
  trans  : ∀ {a b c}, below a b → below b c → below a c
  key_eq : ∀ {a b}, below a b → key a = key b
  line   : ∀ {a b c}, below a b → below a c → b = c ∨ below b c ∨ below c b

def ByKey (below : α → α → Prop) (key : α → K) (a b : α) : Prop :=
  below a b ∨ key a < key b

theorem incomparable_byKey : Incomparable (ByKey below key) a b ↔ key a = key b ∧ ¬below a b ∧ ¬below b a := by
  simp only [Incomparable, ByKey, not_or, not_lt]
  constructor
  case mp => exact fun ⟨⟨hab, hba'⟩, hba, hab'⟩ => ⟨le_antisymm hab' hba', hab, hba⟩
  case mpr => exact fun ⟨heq, hab, hba⟩ => ⟨⟨hab, heq.ge⟩, hba, heq.le⟩

theorem Classes.byKey_trans (h : Classes below key) (hab : ByKey below key a b) (hbc : ByKey below key b c) :
    ByKey below key a c := by
  cases hab with
  | inl hab =>
    cases hbc with
    | inl hbc => exact .inl (h.trans hab hbc)
    | inr hbc => exact .inr (h.key_eq hab ▸ hbc)
  | inr hab =>
    cases hbc with
    | inl hbc => exact .inr (h.key_eq hbc ▸ hab)
    | inr hbc => exact .inr (hab.trans hbc)

-- What has something below it must be comparable with everything in its class.
theorem Classes.strictWeakOrdering_iff (h : Classes below key) :
    StrictWeakOrdering (ByKey below key) l ↔
      ∀ a ∈ l, ∀ b ∈ l, ∀ c ∈ l, below a c → key b = key c → b = c ∨ below b c ∨ below c b := by
  constructor
  case mp =>
    intro hl a ha b hb c hc hac hkey
    by_contra hn
    have ⟨hne, hn⟩ := not_or.mp hn
    have ⟨hbc, hcb⟩ := not_or.mp hn
    have hincomparable := incomparable_byKey.mpr ⟨hkey, hbc, hcb⟩
    have hab : ¬Incomparable (ByKey below key) a b := fun hab =>
      (hl.incomparable_trans a ha b hb c hc hab hincomparable).1 (.inl hac)
    have hab : below a b ∨ below b a := by
      by_contra hab
      have hab := not_or.mp hab
      exact absurd (incomparable_byKey.mpr ⟨(h.key_eq hac).trans hkey.symm, hab⟩) ‹_›
    cases hab with
    | inl hab => exact (h.line hab hac).elim hne hn
    | inr hba => exact hbc (h.trans hba hac)
  case mpr =>
    intro hl
    constructor
    case irrefl => exact fun a _ ha => ha.elim (h.irrefl a) (lt_irrefl _)
    case trans => exact fun a _ b _ c _ hab hbc => h.byKey_trans hab hbc
    case incomparable_trans =>
      intro a ha b hb c hc hab hbc
      have ⟨hkey, hab, hba⟩ := incomparable_byKey.mp hab
      have ⟨hkey', hbc, hcb⟩ := incomparable_byKey.mp hbc
      refine incomparable_byKey.mpr ⟨hkey.trans hkey', fun hac => ?_, fun hca => ?_⟩
      · exact (hl a ha b hb c hc hac hkey').elim (fun heq => hab (heq ▸ hac)) (·.elim hbc hcb)
      · exact (hl c hc b hb a ha hca hkey.symm).elim (fun heq => hcb (heq ▸ hca)) (·.elim hba hab)

end WeakOrder
