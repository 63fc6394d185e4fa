import Mathlib.Data.Finset.Card
import Mathlib.Data.Multiset.Filter
import PlasmaModel.Lib.Fifo
import PlasmaModel.Wayland.Requests

namespace KWin

open Fifo

-- The pointers which make up the queues of the surfaces, without the order of the entries.
structure Link where
  surface  : SurfaceId
  previous : Option TransactionId
  next     : Option TransactionId

structure Ends where
  first : Option TransactionId
  last  : Option TransactionId

structure QueueView where
  links           : TransactionId → Option (Multiset Link)
  ends            : SurfaceId → Option Ends
  applying        : List TransactionId
  nextTransaction : TransactionId
  nextSurface     : SurfaceId

def TransactionEntry.link (entry : TransactionEntry) : Link :=
  ⟨entry.surface, entry.previousTransaction, entry.nextTransaction⟩

def Surface.ends (surface : Surface) : Ends :=
  ⟨surface.firstTransaction, surface.lastTransaction⟩

def State.queueView (s : State) : QueueView where
  links t         := (s.transactions t).map fun transaction => ↑(transaction.entries.map (·.link))
  ends x          := (s.surfaces x).map (·.ends)
  applying        := s.applying
  nextTransaction := s.nextTransaction
  nextSurface     := s.nextSurface

def Link.setNext (x : SurfaceId) (t : TransactionId) (l : Link) : Link :=
  if l.surface = x then { l with next := some t } else l

@[simp]
theorem Link.setNext_surface (l : Link) : (l.setNext x t).surface = l.surface := by
  unfold setNext
  split <;> rfl

@[simp]
theorem Link.setNext_previous (l : Link) : (l.setNext x t).previous = l.previous := by
  unfold setNext
  split <;> rfl

theorem Link.setNext_next (l : Link) :
    (l.setNext x t).next = if l.surface = x then some t else l.next := by
  unfold setNext
  split <;> rfl

namespace QueueView

def setLinks (v : QueueView) (t : TransactionId) (links : Multiset Link) : QueueView :=
  { v with links := Function.update v.links t (some links) }

def pop (v : QueueView) (t : TransactionId) (link : Link) : QueueView :=
  { v with ends := Function.update v.ends link.surface <| (v.ends link.surface).map fun ends =>
      if ends.last = some t then ⟨none, none⟩ else ⟨link.next, ends.last⟩ }

end QueueView

-- The queue of a surface holds the transactions that touch it in the order of their commits. An
-- entry for a surface which its transaction has touched before waits for the transaction itself.
structure Queues (v : QueueView) (queue : SurfaceId → List TransactionId) : Prop where
  sorted   : ∀ x, (queue x).Pairwise (· < ·)
  fresh    : ∀ t links, v.links t = some links → t < v.nextTransaction
  known    : ∀ t links, v.links t = some links → ∀ l ∈ links, l.surface < v.nextSurface
  alive    : ∀ x ends, v.ends x = some ends → x < v.nextSurface
  queued   : ∀ x, ∀ t ∈ queue x, ∃ links, v.links t = some links ∧ ∃ l ∈ links, l.surface = x
  ends     : ∀ x ends, v.ends x = some ends → ends = ⟨(queue x).head?, (queue x).getLast?⟩
  next     : ∀ t links, v.links t = some links → ∀ l ∈ links, t ∈ queue l.surface →
               l.next = after (queue l.surface) t ∨
               (l.next = some t ∧ after (queue l.surface) t = none ∧ ∃ l' ∈ links, l'.previous = some t)
  previous : ∀ t links, v.links t = some links → ∀ a ≠ t,
               links.countP (·.previous = some a) =
                 ((links.map (·.surface)).toFinset.filter fun x => before (queue x) t = some a).card
  exact    : ∀ t links, v.links t = some links → ∀ l ∈ links, ∀ a ≠ t, l.previous = some a →
               a ∉ v.applying → before (queue l.surface) t = some a
  ready    : ∀ t ∈ v.applying, ∃ links, v.links t = some links ∧ ∀ l ∈ links, l.previous = none
  once     : v.applying.Nodup

-- All entries of the transaction have been put into the queues, but for those whose surface did not
-- exist any more.
structure Linked (v : QueueView) (queue : SurfaceId → List TransactionId) (t : TransactionId)
    (links : Multiset Link) : Prop where
  nodup    : (∀ l ∈ links, l.previous ≠ some t) →
               ((links.filter (t ∈ queue ·.surface)).map (·.surface)).Nodup
  unqueued : t ∉ v.applying → ∀ l ∈ links, t ∉ queue l.surface →
               v.ends l.surface = none ∧ l.next = none

namespace Queues

variable {v : QueueView} {queue : SurfaceId → List TransactionId} {t a : TransactionId}
variable {links r : Multiset Link} {l l' : Link} {x : SurfaceId} {rest : List TransactionId}

theorem nodup (q : Queues v queue) : (queue x).Nodup :=
  (q.sorted x).imp fun h => h.ne

theorem before_lt (q : Queues v queue) (h : before (queue x) t = some a) : a < t := by
  have hs := q.sorted x
  generalize queue x = l at h hs
  induction l
  case nil => simp at h
  case cons b l ih =>
    cases l
    case nil => simp at h
    case cons c l =>
      rw [before_cons_cons] at h
      split at h
      case isTrue he =>
        obtain rfl := Option.some.inj h
        exact he ▸ List.rel_of_pairwise_cons hs (by simp)
      case isFalse => exact ih h hs.tail

-- An entry that waits for another transaction waits for an earlier one, which is in its queue.
theorem exists_before (q : Queues v queue) (h : v.links t = some links) (hl : l ∈ links)
    (hp : l.previous = some a) (ha : a ≠ t) : ∃ x, before (queue x) t = some a := by
  have hc : 0 < links.countP (·.previous = some a) := Multiset.countP_pos.mpr ⟨l, hl, by simpa⟩
  rw [q.previous t links h a ha, Finset.card_pos] at hc
  obtain ⟨x, hx⟩ := hc
  exact ⟨x, (Finset.mem_filter.mp hx).2⟩

theorem exists_previous (q : Queues v queue) (h : v.links t = some links)
    (hb : before (queue x) t = some a) : ∃ l ∈ links, l.previous = some a := by
  have ⟨links', h', l, hl, hx⟩ := q.queued x t (mem_of_before_eq_some hb)
  obtain rfl : links = links' := Option.some.inj (h.symm.trans h')
  have hc : 0 < links.countP (·.previous = some a) := by
    rw [q.previous t links h a (q.before_lt hb).ne, Finset.card_pos]
    exact ⟨x, Finset.mem_filter.mpr ⟨by simpa using ⟨l, hl, hx⟩, hb⟩⟩
  simpa using Multiset.countP_pos.mp hc

-- A transaction that waits for nothing is the first one in all of its queues.
theorem head (q : Queues v queue) (h : v.links t = some links) (hp : ∀ l ∈ links, l.previous = none)
    (hx : t ∈ queue x) : (queue x).head? = some t := by
  refine head_of_before_eq_none hx (Option.eq_none_iff_forall_not_mem.mpr fun a ha => ?_)
  have ⟨l, hl, hla⟩ := q.exists_previous h ha
  simp [hp l hl] at hla

theorem applying_head (q : Queues v queue) (h : t ∈ v.applying) (hx : t ∈ queue x) :
    (queue x).head? = some t :=
  have ⟨_, h, hp⟩ := q.ready t h
  q.head h hp hx

-- The next transaction of the first transaction of a queue is the second one.
theorem next_eq (q : Queues v queue) (ht : t ∈ v.applying) (h : v.links t = some links) (hl : l ∈ links)
    (hx : queue l.surface = t :: rest) : l.next = rest.head? := by
  have ⟨links', h', hp⟩ := q.ready t ht
  obtain rfl : links = links' := Option.some.inj (h.symm.trans h')
  rcases q.next t links h l hl (by simp [hx]) with hn | ⟨_, _, l', hl', hs⟩
  · simpa [hx] using hn
  · simp [hp l' hl'] at hs

theorem fresh_not_mem (q : Queues v queue) : v.nextTransaction ∉ queue x := fun h =>
  have ⟨links, hl, _⟩ := q.queued x _ h
  (q.fresh _ links hl).false

theorem fresh_not_applying (q : Queues v queue) : v.nextTransaction ∉ v.applying := fun h =>
  have ⟨links, hl, _⟩ := q.ready _ h
  (q.fresh _ links hl).false

-- A transaction that is new is in no queue.
theorem create (q : Queues v queue) (hp : ∀ l ∈ links, l.previous = none)
    (hs : ∀ l ∈ links, l.surface < v.nextSurface) :
    Queues { v.setLinks v.nextTransaction links with nextTransaction := v.nextTransaction + 1 } queue where
  sorted := q.sorted
  fresh t links' h := by
    by_cases ht : t = v.nextTransaction
    case pos => simp [ht]
    case neg => exact (q.fresh t links' (by simpa [QueueView.setLinks, ht] using h)).trans (Nat.lt_succ_self _)
  known t links' h := by
    by_cases ht : t = v.nextTransaction
    case pos =>
      subst ht
      obtain rfl : links = links' := by simpa [QueueView.setLinks] using h
      exact hs
    case neg => exact q.known t links' (by simpa [QueueView.setLinks, ht] using h)
  alive := q.alive
  queued x t h := by
    have ht : t ≠ v.nextTransaction := by rintro rfl; exact q.fresh_not_mem h
    simpa [QueueView.setLinks, ht] using q.queued x t h
  ends := q.ends
  next t links' h l hl hm := by
    have ht : t ≠ v.nextTransaction := by rintro rfl; exact q.fresh_not_mem hm
    exact q.next t links' (by simpa [QueueView.setLinks, ht] using h) l hl hm
  previous t links' h a ha := by
    by_cases ht : t = v.nextTransaction
    case pos =>
      subst ht
      obtain rfl : links = links' := by simpa [QueueView.setLinks] using h
      rw [Multiset.countP_eq_zero.mpr fun l hl => by simp [hp l hl], eq_comm, Finset.card_eq_zero,
        Finset.filter_eq_empty_iff]
      intro x _
      rw [before_eq_none_of_not_mem q.fresh_not_mem]
      simp
    case neg => exact q.previous t links' (by simpa [QueueView.setLinks, ht] using h) a ha
  exact t links' h l hl a ha hpa hna := by
    by_cases ht : t = v.nextTransaction
    case pos =>
      subst ht
      obtain rfl : links = links' := by simpa [QueueView.setLinks] using h
      simp [hp l hl] at hpa
    case neg => exact q.exact t links' (by simpa [QueueView.setLinks, ht] using h) l hl a ha hpa hna
  ready t h := by
    have ht : t ≠ v.nextTransaction := by rintro rfl; exact q.fresh_not_applying h
    simpa [QueueView.setLinks, ht] using q.ready t h
  once := q.once

theorem begin (q : Queues v queue) (h : v.links t = some links)
    (hp : ∀ l ∈ links, l.previous = none) (hn : t ∉ v.applying) :
    Queues { v with applying := t :: v.applying } queue where
  sorted   := q.sorted
  fresh    := q.fresh
  known    := q.known
  alive    := q.alive
  queued   := q.queued
  ends     := q.ends
  next     := q.next
  previous := q.previous
  exact t links h l hl a ha hp hn := q.exact t links h l hl a ha hp (by simp_all)
  ready    := by simpa using ⟨⟨links, h, hp⟩, q.ready⟩
  once     := List.nodup_cons.mpr ⟨hn, q.once⟩

-- Once a transaction has left all queues, nothing refers to it any more.
theorem delete (q : Queues v queue) (hn : ∀ x, t ∉ queue x) :
    Queues { v with links := Function.update v.links t none, applying := v.applying.erase t } queue where
  sorted := q.sorted
  fresh t' links h := q.fresh t' links (by grind [Function.update_apply])
  known t' links h := q.known t' links (by grind [Function.update_apply])
  alive := q.alive
  queued x t' h := by
    have ⟨links, hl⟩ := q.queued x t' h
    have : t' ≠ t := by rintro rfl; exact hn x h
    exact ⟨links, by simpa [Function.update_apply, this] using hl⟩
  ends := q.ends
  next t' links h := q.next t' links (by grind [Function.update_apply])
  previous t' links h := q.previous t' links (by grind [Function.update_apply])
  exact t' links h l hl a ha hp hna := by
    have h : v.links t' = some links := by grind [Function.update_apply]
    have ⟨x, hx⟩ := q.exists_before h hl hp ha
    have : a ≠ t := by rintro rfl; exact hn x (mem_of_eq_before hx)
    exact q.exact t' links h l hl a ha hp fun hm => hna ((List.mem_erase_of_ne this).mpr hm)
  ready t' h := by
    have ⟨hne, hm⟩ := (List.Nodup.mem_erase_iff q.once).mp h
    simpa [Function.update_apply, hne] using q.ready t' hm
  once := q.once.erase t

theorem alive_pop (q : Queues v queue) {ends : Ends} (h : (v.pop t l).ends x = some ends) :
    x < v.nextSurface := by
  by_cases hx : x = l.surface
  case pos =>
    simp only [QueueView.pop, hx, Function.update_self, Option.map_eq_some_iff] at h
    obtain ⟨ends', h, _⟩ := h
    exact hx ▸ q.alive _ ends' h
  case neg => exact q.alive x ends (by simpa [QueueView.pop, Function.update_of_ne hx] using h)

section

variable (q : Queues v queue) (hx : queue x = t :: rest)
include q hx

theorem mem_pop {y : SurfaceId} (h : a ∈ Function.update queue x rest y) :
    a ∈ queue y ∧ after (Function.update queue x rest y) a = after (queue y) a := by
  have hn := q.nodup (x := x)
  rw [hx] at hn
  by_cases hy : y = x
  case pos =>
    subst hy
    rw [Function.update_self] at h ⊢
    have ha : a ≠ t := by rintro rfl; exact (List.nodup_cons.mp hn).1 h
    exact ⟨by simp [hx, h], by rw [hx, after_cons_of_ne ha]⟩
  case neg => simpa [Function.update_of_ne hy] using h

theorem before_pop {y : SurfaceId} {b : TransactionId} :
    before (Function.update queue x rest y) a = some b ↔
      before (queue y) a = some b ∧ ¬(y = x ∧ b = t) := by
  have hn := q.nodup (x := x)
  rw [hx] at hn
  by_cases hy : y = x
  case pos =>
    subst hy
    rw [Function.update_self, before_tail hn, hx]
    grind
  case neg => simp [hy]

theorem card_pop (h : v.links a = some links) (b : TransactionId) :
    ((links.map (·.surface)).toFinset.filter fun y => before (queue y) a = some b).card =
      ((links.map (·.surface)).toFinset.filter fun y =>
          before (Function.update queue x rest y) a = some b).card +
        if b = t ∧ rest.head? = some a then 1 else 0 := by
  have hn := q.nodup (x := x)
  rw [hx] at hn
  have hb := before_eq_head_iff (x := a) hn
  simp only [q.before_pop hx]
  split
  case isTrue hc =>
    obtain ⟨rfl, hc⟩ := hc
    have hm : x ∈ (links.map (·.surface)).toFinset.filter fun y => before (queue y) a = some b := by
      have ⟨links', h', l, hl, hlx⟩ := q.queued x a (by rw [hx]; exact List.mem_cons_of_mem _ (List.mem_of_mem_head? hc))
      obtain rfl : links = links' := Option.some.inj (h.symm.trans h')
      exact Finset.mem_filter.mpr ⟨by simpa using ⟨l, hl, hlx⟩, by rw [hx]; exact hb.mpr hc⟩
    rw [← Finset.card_erase_add_one hm]
    congr 2
    ext y
    simp only [Finset.mem_erase, Finset.mem_filter]
    tauto
  case isFalse hc =>
    rw [Nat.add_zero]
    congr 1
    refine Finset.filter_congr fun y _ => (and_iff_left_of_imp fun hy => ?_).symm
    rintro ⟨rfl, rfl⟩
    rw [hx] at hy
    exact hc ⟨rfl, hb.mp hy⟩

theorem ends_pop (hl : l.surface = x) (hn : l.next = rest.head?) {y : SurfaceId} {ends : Ends}
    (h : (v.pop t l).ends y = some ends) :
    ends = ⟨(Function.update queue x rest y).head?, (Function.update queue x rest y).getLast?⟩ := by
  have hnd := q.nodup (x := x)
  rw [hx] at hnd
  rw [QueueView.pop, hl] at h
  by_cases hy : y = x
  case neg => simpa [Function.update_of_ne hy] using q.ends y ends (by simpa [Function.update_of_ne hy] using h)
  case pos =>
    subst hy
    simp only [Function.update_self, Option.map_eq_some_iff] at h ⊢
    obtain ⟨ends', h', rfl⟩ := h
    rw [q.ends y ends' h', hx]
    cases rest
    case nil => simp
    case cons b rest =>
      rw [List.getLast?_cons_cons, if_neg]
      · simp [hn]
      · intro hb
        exact (List.nodup_cons.mp hnd).1 (List.mem_of_getLast? hb)

-- The transaction which is being applied leaves the queue of one of its entries.
theorem pop (ht : t ∈ v.applying) (hl : l.surface = x) (hn : l.next = none) (hr : rest = []) :
    Queues (v.pop t l) (Function.update queue x rest) where
  sorted y := by
    by_cases hy : y = x
    case pos => simp [hy, hr]
    case neg => simpa [Function.update_of_ne hy] using q.sorted y
  fresh := q.fresh
  known := q.known
  alive y ends h := q.alive_pop h
  queued y a h := q.queued y a (q.mem_pop hx h).1
  ends y ends h := q.ends_pop hx hl (by simp [hn, hr]) h
  next a links h l hl ha := by
    have ⟨h₁, h₂⟩ := q.mem_pop hx ha
    rw [h₂]
    exact q.next a links h l hl h₁
  previous a links h b hb := by
    have := q.card_pop hx h b
    rw [q.previous a links h b hb, this]
    simp [hr]
  exact a links h l hl b hb hp hna := by
    refine (q.before_pop hx).mpr ⟨q.exact a links h l hl b hb hp hna, ?_⟩
    rintro ⟨_, rfl⟩
    exact hna ht
  ready := q.ready
  once  := q.once

-- The next transaction of the entry does not wait for it any more.
theorem pop_setLinks {n : TransactionId} (ht : t ∈ v.applying) (hl : l.surface = x) (hn : l.next = some n)
    (hr : rest.head? = some n) (h : v.links n = some (l' ::ₘ r)) (hp : l'.previous = some t) :
    Queues ((v.pop t l).setLinks n ({ l' with previous := none } ::ₘ r))
      (Function.update queue x rest) := by
  have hnt : n ≠ t := by
    have hnd := q.nodup (x := x)
    rw [hx] at hnd
    rintro rfl
    exact (List.nodup_cons.mp hnd).1 (List.mem_of_mem_head? hr)
  -- What the links of a transaction were before the step.
  have links_old : ∀ a links,
      ((v.pop t l).setLinks n ({ l' with previous := none } ::ₘ r)).links a = some links →
      ∃ links₀, v.links a = some links₀ ∧ links.map (·.surface) = links₀.map (·.surface) ∧
        (∀ b, links₀.countP (·.previous = some b) =
          links.countP (·.previous = some b) + if b = t ∧ a = n then 1 else 0) ∧
        ∀ l ∈ links, ∃ l₀ ∈ links₀, l₀.surface = l.surface ∧ l₀.next = l.next ∧
          (l.previous = l₀.previous ∨ l.previous = none) := by
    intro a links ha
    by_cases han : a = n
    case neg =>
      refine ⟨links, by simpa [QueueView.setLinks, QueueView.pop, Function.update_of_ne han] using ha, rfl,
        by simp [han], fun l hl => ⟨l, hl, rfl, rfl, .inl rfl⟩⟩
    case pos =>
      subst han
      obtain rfl : { l' with previous := none } ::ₘ r = links := by
        simpa [QueueView.setLinks] using ha
      refine ⟨l' ::ₘ r, h, by simp, fun b => ?_, fun l hl => ?_⟩
      · simp only [Multiset.countP_cons, hp, Option.some.injEq, reduceCtorEq, if_false, and_true, Nat.add_zero,
          eq_comm (a := t)]
      · rcases Multiset.mem_cons.mp hl with rfl | hl
        · exact ⟨l', by simp, rfl, rfl, .inr rfl⟩
        · exact ⟨l, Multiset.mem_cons_of_mem hl, rfl, rfl, .inl rfl⟩
  constructor
  case sorted =>
    intro y
    by_cases hy : y = x
    case pos =>
      have := q.sorted x
      rw [hx] at this
      simpa [hy] using this.tail
    case neg => simpa [Function.update_of_ne hy] using q.sorted y
  case fresh =>
    intro a links ha
    have ⟨links₀, h₀, _⟩ := links_old a links ha
    exact q.fresh a links₀ h₀
  case known =>
    intro a links ha l hl
    have ⟨links₀, h₀, _, _, hs⟩ := links_old a links ha
    have ⟨l₀, hl₀, he, _⟩ := hs l hl
    exact he ▸ q.known a links₀ h₀ l₀ hl₀
  case alive => exact fun y ends hy => q.alive_pop hy
  case queued =>
    intro y a ha
    have ⟨links₀, h₀, l₀, hl₀, hs⟩ := q.queued y a (q.mem_pop hx ha).1
    by_cases han : a = n
    case neg =>
      exact ⟨links₀, by simpa [QueueView.setLinks, QueueView.pop, Function.update_of_ne han] using h₀, l₀, hl₀, hs⟩
    case pos =>
      subst han
      obtain rfl := Option.some.inj (h₀.symm.trans h)
      refine ⟨_, Function.update_self .., ?_⟩
      rcases Multiset.mem_cons.mp hl₀ with rfl | hl₀
      · exact ⟨_, Multiset.mem_cons_self _ _, hs⟩
      · exact ⟨l₀, Multiset.mem_cons_of_mem hl₀, hs⟩
  case ends => exact fun y ends hy => q.ends_pop hx hl (hn.trans hr.symm) hy
  case next =>
    intro a links ha l hl hm
    have ⟨links₀, h₀, _, hc, hs⟩ := links_old a links ha
    have ⟨l₀, hl₀, he, hne, _⟩ := hs l hl
    have ⟨h₁, h₂⟩ := q.mem_pop hx hm
    rw [h₂, ← hne, ← he]
    refine (q.next a links₀ h₀ l₀ hl₀ (he ▸ h₁)).imp_right fun ⟨hs₁, hs₂, l₁, hl₁, hp₁⟩ => ⟨hs₁, hs₂, ?_⟩
    have : 0 < links₀.countP (·.previous = some a) := Multiset.countP_pos.mpr ⟨l₁, hl₁, by simpa⟩
    rw [hc, if_neg (by rintro ⟨rfl, rfl⟩; exact hnt rfl)] at this
    simpa using Multiset.countP_pos.mp this
  case previous =>
    intro a links ha b hb
    have ⟨links₀, h₀, hsurf, hc, _⟩ := links_old a links ha
    have h₁ := q.previous a links₀ h₀ b hb
    have h₂ := q.card_pop hx h₀ b
    rw [hsurf]
    have hr' : rest.head? = some a ↔ a = n := by rw [hr, Option.some.injEq, eq_comm]
    simp only [hr'] at h₂
    have := hc b
    omega
  case exact =>
    intro a links ha l hl b hb hp' hna
    have ⟨links₀, h₀, _, _, hs⟩ := links_old a links ha
    have ⟨l₀, hl₀, he, _, hpr⟩ := hs l hl
    rcases hpr with hpr | hpr
    · rw [hpr] at hp'
      refine (q.before_pop hx).mpr ⟨he ▸ q.exact a links₀ h₀ l₀ hl₀ b hb hp' hna, ?_⟩
      rintro ⟨_, rfl⟩
      exact hna ht
    · rw [hpr] at hp'
      contradiction
  case ready =>
    intro a ha
    have ⟨links₀, h₀, hp₀⟩ := q.ready a ha
    have han : a ≠ n := by
      rintro rfl
      obtain rfl := Option.some.inj (h₀.symm.trans h)
      simp [hp₀ l' (Multiset.mem_cons_self _ _)] at hp
    exact ⟨links₀, by simpa [QueueView.setLinks, QueueView.pop, Function.update_of_ne han] using h₀, hp₀⟩
  case once => exact q.once

-- The next transaction waits for the first one.
theorem exists_waiting {n : TransactionId}
    (hr : rest.head? = some n) : ∃ ln r, v.links n = some (ln ::ₘ r) ∧ ln.previous = some t := by
  have hn := q.nodup (x := x)
  rw [hx] at hn
  have hb : before (queue x) n = some t := by rw [hx]; exact (before_eq_head_iff hn).mpr hr
  have ⟨links', h', _⟩ := q.queued x n (mem_of_before_eq_some hb)
  have ⟨ln, hln, hp⟩ := q.exists_previous h' hb
  obtain ⟨r, rfl⟩ := Multiset.exists_cons_of_mem hln
  exact ⟨ln, r, h', hp⟩

end

-- A transaction is put into a queue which it is not in yet.
theorem link_new {v' : QueueView} (q : Queues v queue) (h : v.links t = some (l ::ₘ r))
    (ht : v.nextTransaction = t + 1) (hx : l.surface = x) (hq : t ∉ queue x) (hp : l.previous = none)
    (hn : ∀ l' ∈ l ::ₘ r, t ∉ queue l'.surface → l'.next = none) (hx' : x < v.nextSurface)
    (links_t : v'.links t = some ({ l with previous := (queue x).getLast? } ::ₘ r))
    (links_ne : ∀ b ≠ t, v'.links b =
      if (queue x).getLast? = some b then (v.links b).map (·.map (Link.setNext x t)) else v.links b)
    (ends_x : v'.ends x = some ⟨(queue x ++ [t]).head?, some t⟩) (ends_ne : ∀ y ≠ x, v'.ends y = v.ends y)
    (applying : v'.applying = v.applying) (happ : t ∉ v.applying)
    (nextTransaction : v'.nextTransaction = v.nextTransaction)
    (nextSurface : v'.nextSurface = v.nextSurface) :
    Queues v' (Function.update queue x (queue x ++ [t])) := by
  have hle : ∀ y, ∀ a ∈ queue y, a ≤ t := fun y a hm => by
    have ⟨links, h', _⟩ := q.queued y a hm
    have := q.fresh a links h'
    rw [ht] at this
    exact Nat.le_of_lt_succ this
  have hlast : (queue x).getLast? ≠ some t := fun h => hq (List.mem_of_getLast? h)
  -- What the queues are after the step.
  have hmem : ∀ {y a}, a ∈ Function.update queue x (queue x ++ [t]) y ↔
      a ∈ queue y ∨ (y = x ∧ a = t) := by
    intro y a
    by_cases hy : y = x
    case pos => subst hy; simp
    case neg => simp [hy]
  have hbefore : ∀ {y a}, ¬(y = x ∧ a = t) →
      before (Function.update queue x (queue x ++ [t]) y) a = before (queue y) a := by
    intro y a ha
    by_cases hy : y = x
    case pos => subst hy; rw [Function.update_self, before_append_of_ne (by simpa using ha)]
    case neg => rw [Function.update_of_ne hy]
  have hafter : ∀ {y a}, a ∈ queue y → after (Function.update queue x (queue x ++ [t]) y) a =
      if y = x ∧ (queue x).getLast? = some a then some t else after (queue y) a := by
    intro y a ha
    by_cases hy : y = x
    case pos =>
      subst hy
      rw [Function.update_self]
      by_cases hl : (queue y).getLast? = some a
      case pos => rw [after_append_of_last hl q.nodup, if_pos ⟨rfl, hl⟩]
      case neg => rw [after_append_of_ne ha hl, if_neg (fun h => hl h.2)]
    case neg => rw [Function.update_of_ne hy, if_neg (fun h => hy h.1)]
  have old : ∀ {b links}, b ≠ t → v'.links b = some links → ∃ links₀, v.links b = some links₀ ∧
      links = if (queue x).getLast? = some b then links₀.map (Link.setNext x t) else links₀ := by
    intro b links hb h
    rw [links_ne b hb] at h
    split at h
    case isTrue hl =>
      obtain ⟨links₀, h₀, rfl⟩ := Option.map_eq_some_iff.mp h
      exact ⟨links₀, h₀, by simp [hl]⟩
    case isFalse hl => exact ⟨links, h, by simp [hl]⟩
  have new : ∀ {b links₀}, v.links b = some links₀ → ∃ links, v'.links b = some links ∧
      links.map (·.surface) = links₀.map (·.surface) := by
    intro b links₀ h₀
    by_cases hb : b = t
    case pos =>
      subst hb
      obtain rfl := Option.some.inj (h₀.symm.trans h)
      exact ⟨_, links_t, by simp⟩
    case neg =>
      rw [links_ne b hb, h₀]
      split
      · exact ⟨_, rfl, by simp⟩
      · exact ⟨_, rfl, rfl⟩
  have htx : before (queue x) t = none := before_eq_none_of_not_mem hq
  constructor
  case sorted =>
    intro y
    by_cases hy : y = x
    case pos =>
      subst hy
      rw [Function.update_self, List.pairwise_append]
      refine ⟨q.sorted _, by simp, fun a ha b hb => ?_⟩
      obtain rfl : b = t := by simpa using hb
      exact lt_of_le_of_ne (hle y a ha) fun he => hq (he ▸ ha)
    case neg => simpa [Function.update_of_ne hy] using q.sorted y
  case fresh =>
    intro b links hb
    rw [nextTransaction]
    by_cases hbt : b = t
    case pos => rw [hbt]; exact q.fresh t _ h
    case neg =>
      have ⟨_, h₀, _⟩ := old hbt hb
      exact q.fresh b _ h₀
  case known =>
    intro b links hb l₁ hl₁
    rw [nextSurface]
    by_cases hbt : b = t
    case pos =>
      subst hbt
      obtain rfl := Option.some.inj (hb.symm.trans links_t)
      rcases Multiset.mem_cons.mp hl₁ with rfl | hl₁
      · exact hx ▸ hx'
      · exact q.known b _ h l₁ (Multiset.mem_cons_of_mem hl₁)
    case neg =>
      obtain ⟨links₀, h₀, rfl⟩ := old hbt hb
      split at hl₁
      · obtain ⟨l₀, hl₀, rfl⟩ := Multiset.mem_map.mp hl₁
        rw [Link.setNext_surface]
        exact q.known b _ h₀ l₀ hl₀
      · exact q.known b _ h₀ l₁ hl₁
  case alive =>
    intro y ends hy
    rw [nextSurface]
    by_cases hyx : y = x
    case pos => rwa [hyx]
    case neg => exact q.alive y ends (ends_ne y hyx ▸ hy)
  case queued =>
    intro y a ha
    have : ∃ links₀, v.links a = some links₀ ∧ ∃ l₀ ∈ links₀, l₀.surface = y := by
      rcases hmem.mp ha with ha | ⟨rfl, rfl⟩
      · exact q.queued y a ha
      · exact ⟨_, h, l, by simp, hx⟩
    obtain ⟨links₀, h₀, hl₀⟩ := this
    have ⟨links, hl, hs⟩ := new h₀
    refine ⟨links, hl, ?_⟩
    simpa using (by simpa [hs] using hl₀ : y ∈ links.map (·.surface))
  case ends =>
    intro y ends hy
    by_cases hyx : y = x
    case pos =>
      subst hyx
      rw [ends_x] at hy
      rw [← Option.some.inj hy, Function.update_self, List.getLast?_concat]
    case neg =>
      rw [Function.update_of_ne hyx]
      exact q.ends y ends (ends_ne y hyx ▸ hy)
  case next =>
    intro b links hb l₁ hl₁ hm
    by_cases hbt : b = t
    case pos =>
      subst hbt
      obtain rfl := Option.some.inj (hb.symm.trans links_t)
      by_cases hs : l₁.surface = x
      case pos =>
        have hn₁ : l₁.next = none := by
          rcases Multiset.mem_cons.mp hl₁ with rfl | hl₁
          · exact hn l (by simp) (by simpa [hx] using hq)
          · exact hn l₁ (Multiset.mem_cons_of_mem hl₁) (by simpa [hs] using hq)
        left
        rw [hn₁, hs, Function.update_self, after_last (by simp)]
        refine List.nodup_append.mpr ⟨q.nodup, by simp, ?_⟩
        rintro a ha c hc rfl
        obtain rfl := List.mem_singleton.mp hc
        exact hq ha
      case neg =>
        have hr₁ : l₁ ∈ r := (Multiset.mem_cons.mp hl₁).resolve_left (by rintro rfl; exact hs hx)
        have hm₁ : b ∈ queue l₁.surface := (hmem.mp hm).resolve_right (fun h => hs h.1)
        rw [hafter hm₁, if_neg (fun h => hs h.1)]
        refine (q.next b _ h l₁ (Multiset.mem_cons_of_mem hr₁) hm₁).imp_right ?_
        rintro ⟨h₁, h₂, l₂, hl₂, hp₂⟩
        have hr₂ : l₂ ∈ r := (Multiset.mem_cons.mp hl₂).resolve_left (by rintro rfl; simp [hp] at hp₂)
        exact ⟨h₁, h₂, l₂, Multiset.mem_cons_of_mem hr₂, hp₂⟩
    case neg =>
      obtain ⟨links₀, h₀, rfl⟩ := old hbt hb
      have hm₁ : b ∈ queue l₁.surface := (hmem.mp hm).resolve_right (fun h => hbt h.2)
      rw [hafter hm₁]
      split at hl₁
      case isTrue hlb =>
        obtain ⟨l₀, hl₀, rfl⟩ := Multiset.mem_map.mp hl₁
        rw [Link.setNext_surface] at hm₁ ⊢
        rw [Link.setNext_next]
        by_cases hs : l₀.surface = x
        case pos => simp [hs, hlb]
        case neg =>
          rw [if_neg hs, if_neg (fun h => hs h.1)]
          refine (q.next b _ h₀ l₀ hl₀ hm₁).imp_right ?_
          rintro ⟨h₁, h₂, l₂, hl₂, hp₂⟩
          exact ⟨h₁, h₂, l₂.setNext x t, by simpa [hlb] using ⟨l₂, hl₂, rfl⟩, by simpa using hp₂⟩
      case isFalse hlb =>
        rw [if_neg (fun h => hlb h.2), if_neg hlb]
        exact q.next b _ h₀ l₁ hl₁ hm₁
  case previous =>
    intro b links hb a ha
    by_cases hbt : b = t
    case pos =>
      subst hbt
      obtain rfl := Option.some.inj (hb.symm.trans links_t)
      have hc := q.previous b _ h a ha
      simp only [Multiset.countP_cons, hp, reduceCtorEq, if_false, Nat.add_zero] at hc
      rw [Multiset.countP_cons, hc, Multiset.map_cons, Multiset.map_cons]
      simp only [hx]
      by_cases hla : (queue x).getLast? = some a
      case pos =>
        have hxn : x ∉ ((x ::ₘ r.map (·.surface)).toFinset.filter fun y => before (queue y) b = some a) := by
          simp [htx]
        rw [if_pos hla, ← Finset.card_insert_of_notMem hxn]
        congr 1
        ext y
        by_cases hy : y = x
        case pos => subst hy; simp [before_append_self hq, hla]
        case neg => simp [hy]
      case neg =>
        rw [if_neg hla, Nat.add_zero]
        congr 1
        refine Finset.filter_congr fun y _ => ?_
        by_cases hy : y = x
        case pos => subst hy; simp [before_append_self hq, hla, htx]
        case neg => simp [hy]
    case neg =>
      obtain ⟨links₀, h₀, rfl⟩ := old hbt hb
      have hc := q.previous b _ h₀ a ha
      have hf : ∀ y, before (Function.update queue x (queue x ++ [t]) y) b = before (queue y) b :=
        fun y => hbefore (fun h => hbt h.2)
      simp only [hf]
      split
      · simpa [Multiset.countP_map, ← Multiset.countP_eq_card_filter] using hc
      · exact hc
  case exact =>
    intro b links hb l₁ hl₁ a ha hpa hna
    rw [applying] at hna
    by_cases hbt : b = t
    case pos =>
      subst hbt
      obtain rfl := Option.some.inj (hb.symm.trans links_t)
      rcases Multiset.mem_cons.mp hl₁ with rfl | hl₁
      · simpa [hx, before_append_self hq] using hpa
      · have he := q.exact b _ h l₁ (Multiset.mem_cons_of_mem hl₁) a ha hpa hna
        have hs : l₁.surface ≠ x := by
          intro hs
          rw [hs, htx] at he
          contradiction
        rwa [hbefore (fun h => hs h.1)]
    case neg =>
      obtain ⟨links₀, h₀, rfl⟩ := old hbt hb
      rw [hbefore (fun h => hbt h.2)]
      split at hl₁
      · obtain ⟨l₀, hl₀, rfl⟩ := Multiset.mem_map.mp hl₁
        rw [Link.setNext_previous] at hpa
        rw [Link.setNext_surface]
        exact q.exact b _ h₀ l₀ hl₀ a ha hpa hna
      · exact q.exact b _ h₀ l₁ hl₁ a ha hpa hna
  case ready =>
    intro b hb
    rw [applying] at hb
    have hbt : b ≠ t := by rintro rfl; exact happ hb
    have ⟨links₀, h₀, hp₀⟩ := q.ready b hb
    rw [links_ne b hbt, h₀]
    split
    · exact ⟨_, rfl, by simpa using hp₀⟩
    · exact ⟨_, rfl, hp₀⟩
  case once => exact applying ▸ q.once

-- A transaction which is in the queue already waits for itself from now on.
theorem link_again {v' : QueueView} (q : Queues v queue) (h : v.links t = some (l ::ₘ r))
    (hx : l.surface = x) (hq : (queue x).getLast? = some t) (hp : l.previous = none)
    (links_t : v'.links t =
      some ({ l.setNext x t with previous := some t } ::ₘ r.map (Link.setNext x t)))
    (links_ne : ∀ b ≠ t, v'.links b = v.links b) (ends : v'.ends = v.ends)
    (applying : v'.applying = v.applying) (happ : t ∉ v.applying)
    (nextTransaction : v'.nextTransaction = v.nextTransaction)
    (nextSurface : v'.nextSurface = v.nextSurface) : Queues v' queue := by
  have old : ∀ {l₁}, l₁ ∈ ({ l.setNext x t with previous := some t } ::ₘ r.map (Link.setNext x t)) →
      ∃ l₀ ∈ l ::ₘ r, l₀.surface = l₁.surface ∧ l₁.next = (if l₀.surface = x then some t else l₀.next) ∧
        (l₁.previous = some t ∨ l₁.previous = l₀.previous) := by
    intro l₁ hl₁
    rcases Multiset.mem_cons.mp hl₁ with rfl | hl₁
    · exact ⟨l, by simp, by simp, l.setNext_next, .inl rfl⟩
    · obtain ⟨l₀, hl₀, rfl⟩ := Multiset.mem_map.mp hl₁
      exact ⟨l₀, Multiset.mem_cons_of_mem hl₀, by simp, l₀.setNext_next, .inr (by simp)⟩
  have surfaces : ({ l.setNext x t with previous := some t } ::ₘ r.map (Link.setNext x t)).map
      (·.surface) = (l ::ₘ r).map (·.surface) := by
    simp
  constructor
  case sorted => exact q.sorted
  case fresh =>
    intro b links hb
    rw [nextTransaction]
    by_cases hbt : b = t
    case pos => rw [hbt]; exact q.fresh t _ h
    case neg => exact q.fresh b links (links_ne b hbt ▸ hb)
  case known =>
    intro b links hb l₁ hl₁
    rw [nextSurface]
    by_cases hbt : b = t
    case pos =>
      subst hbt
      obtain rfl := Option.some.inj (hb.symm.trans links_t)
      have ⟨l₀, hl₀, hs, _⟩ := old hl₁
      exact hs ▸ q.known b _ h l₀ hl₀
    case neg => exact q.known b links (links_ne b hbt ▸ hb) l₁ hl₁
  case alive => exact nextSurface ▸ ends ▸ q.alive
  case queued =>
    intro y a ha
    have ⟨links₀, h₀, l₀, hl₀, hs⟩ := q.queued y a ha
    by_cases hat : a = t
    case neg => exact ⟨links₀, (links_ne a hat).trans h₀, l₀, hl₀, hs⟩
    case pos =>
      subst hat
      obtain rfl := Option.some.inj (h₀.symm.trans h)
      refine ⟨_, links_t, ?_⟩
      have : y ∈ (l ::ₘ r).map (·.surface) := Multiset.mem_map.mpr ⟨l₀, hl₀, hs⟩
      rw [← surfaces] at this
      exact Multiset.mem_map.mp this
  case ends => exact ends ▸ q.ends
  case next =>
    intro b links hb l₁ hl₁ hm
    by_cases hbt : b = t
    case neg => exact q.next b links (links_ne b hbt ▸ hb) l₁ hl₁ hm
    case pos =>
      subst hbt
      obtain rfl := Option.some.inj (hb.symm.trans links_t)
      have ⟨l₀, hl₀, hs, hn, _⟩ := old hl₁
      have hw : ∃ l' ∈ { l.setNext x b with previous := some b } ::ₘ r.map (Link.setNext x b),
          l'.previous = some b := ⟨_, Multiset.mem_cons_self _ _, rfl⟩
      by_cases hsx : l₀.surface = x
      case pos =>
        rw [if_pos hsx] at hn
        exact .inr ⟨hn, by rw [← hs, hsx, after_last hq q.nodup], hw⟩
      case neg =>
        rw [if_neg hsx] at hn
        rw [hn, ← hs]
        exact (q.next b _ h l₀ hl₀ (hs ▸ hm)).imp_right fun ⟨h₁, h₂, _⟩ => ⟨h₁, h₂, hw⟩
  case previous =>
    intro b links hb a ha
    by_cases hbt : b = t
    case neg => exact q.previous b links (links_ne b hbt ▸ hb) a ha
    case pos =>
      subst hbt
      obtain rfl := Option.some.inj (hb.symm.trans links_t)
      rw [surfaces, ← q.previous b _ h a ha]
      simp [Multiset.countP_map, ← Multiset.countP_eq_card_filter, hp, Ne.symm ha]
  case exact =>
    intro b links hb l₁ hl₁ a ha hpa hna
    rw [applying] at hna
    by_cases hbt : b = t
    case neg => exact q.exact b links (links_ne b hbt ▸ hb) l₁ hl₁ a ha hpa hna
    case pos =>
      subst hbt
      obtain rfl := Option.some.inj (hb.symm.trans links_t)
      have ⟨l₀, hl₀, hs, _, hpr⟩ := old hl₁
      rcases hpr with hpr | hpr
      · exact absurd (Option.some.inj (hpa.symm.trans hpr)) ha
      · exact hs ▸ q.exact b _ h l₀ hl₀ a ha (hpr ▸ hpa) hna
  case ready =>
    intro b hb
    rw [applying] at hb
    have hbt : b ≠ t := by rintro rfl; exact happ hb
    exact links_ne b hbt ▸ q.ready b hb
  case once => exact applying ▸ q.once

end Queues
end KWin
